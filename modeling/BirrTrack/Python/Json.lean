import BirrTrack.Foundation.Procedure
import BirrTrack.Foundation.Radix
import BirrTrack.Python.Values

/-! # Decoding JSON

`json.loads` as Python's `json` module documents it: besides JSON it takes `NaN`, the infinities
and literals that round to an infinity. An integer literal of more digits than `int` takes is a
`ValueError` that is no `JSONDecodeError`, and too deep a nesting is a `RecursionError`.
-/

namespace BirrTrack.Python

open Radix (hexDigit)

namespace Json

/-- How many digits an integer literal has at most (4300 unless `sys.set_int_max_str_digits`
says otherwise), and how many brackets can be open at once before the interpreter's recursion
limit; `none` where there is no bound. -/
structure Limits where
  digits : Option ℕ
  depth : Option ℕ

namespace Limits

def unlimited : Limits := ⟨none, none⟩

/-- What is left of the depth inside a bracket. -/
def inner (limits : Limits) : Limits := { limits with depth := limits.depth.map (· - 1) }

end Limits

/-- A text that is no JSON is a `JSONDecodeError`. -/
def decoded {α : Type} : Option α → Except Exception α
  | none => .error .jsonDecodeError
  | some a => .ok a

/-- What may stand between two tokens. -/
def isBlank (c : Char) : Bool := c = ' ' ∨ c = '\t' ∨ c = '\n' ∨ c = '\r'

def skip (text : List Char) : List Char := text.dropWhile isBlank

/-! ## Texts -/

/-- The character of an escape other than `\u`. -/
def escaped (c : Char) : Option Char :=
  if c = '"' ∨ c = '\\' ∨ c = '/' then some c
  else if c = 'b' then some '\x08'
  else if c = 'f' then some '\x0C'
  else if c = 'n' then some '\n'
  else if c = 'r' then some '\r'
  else if c = 't' then some '\t'
  else none

/-- The code points up to the closing quote, and what follows it. -/
def scanString : List Char → Option (List ℕ × List Char)
  | [] => none
  | '"' :: rest => some ([], rest)
  | '\\' :: 'u' :: a :: b :: c :: d :: rest => do
      let unit := (((← hexDigit a) * 16 + (← hexDigit b)) * 16 + (← hexDigit c)) * 16 +
        (← hexDigit d)
      let (units, rest) ← scanString rest
      return (unit :: units, rest)
  | '\\' :: c :: rest => do
      let unit := (← escaped c).toNat
      let (units, rest) ← scanString rest
      return (unit :: units, rest)
  | c :: rest => do
      guard (c ≠ '\\' ∧ 32 ≤ c.toNat)
      let (units, rest) ← scanString rest
      return (c.toNat :: units, rest)

/-- Two surrogates in a row are one character. -/
def characters : List ℕ → List Char
  | [] => []
  | [unit] => [if 0xD800 ≤ unit ∧ unit ≤ 0xDFFF then '\uFFFD' else Char.ofNat unit]
  | unit :: next :: units =>
      if (0xD800 ≤ unit ∧ unit ≤ 0xDBFF) ∧ 0xDC00 ≤ next ∧ next ≤ 0xDFFF then
        Char.ofNat (0x10000 + (unit - 0xD800) * 0x400 + (next - 0xDC00)) :: characters units
      else (if 0xD800 ≤ unit ∧ unit ≤ 0xDFFF then '\uFFFD' else Char.ofNat unit) ::
        characters (next :: units)

/-! ## Numbers -/

/-- The digits after a point, where some follow it. -/
def fraction : List Char → List Char × List Char
  | '.' :: rest =>
      if rest.takeWhile Char.isDigit = [] then ([], '.' :: rest)
      else (rest.takeWhile Char.isDigit, rest.dropWhile Char.isDigit)
  | rest => ([], rest)

/-- The power of ten after `e`, where digits follow it. -/
def exponent : List Char → Option ℤ × List Char
  | [] => (none, [])
  | mark :: rest =>
      let unsigned := if rest.head? = some '-' ∨ rest.head? = some '+' then rest.tail else rest
      let digits := unsigned.takeWhile Char.isDigit
      if (mark = 'e' ∨ mark = 'E') ∧ digits ≠ [] then
        (some (if rest.head? = some '-' then -(Decimal.value digits : ℤ) else Decimal.value digits),
          unsigned.dropWhile Char.isDigit)
      else (none, mark :: rest)

/-- The digits before the point; a zero stands alone. -/
def wholeDigits (text : List Char) : List Char :=
  if text.head? = some '0' then ['0'] else text.takeWhile Char.isDigit

section Numbers

variable (limits : Limits)

/-- The number after its sign. -/
def scanUnsigned (negative : Bool) (text : List Char) : Except Exception (Value × List Char) :=
  let whole := wholeDigits text
  let decimals := fraction (text.drop whole.length)
  let power := exponent decimals.2
  if whole = [] then .error .jsonDecodeError
  else if decimals.1 = [] ∧ power.1 = none then
    let magnitude : ℤ := Decimal.value whole
    if ∃ most ∈ limits.digits, most < whole.length then
      .error (.valueError "Exceeds the limit for integer string conversion")
    else .ok (.int (if negative then -magnitude else magnitude), power.2)
  else
    .ok (.float (.of negative (Decimal.value (whole ++ decimals.1) *
      10 ^ (power.1.getD 0 - decimals.1.length))), power.2)

def scanNumber (text : List Char) : Except Exception (Value × List Char) :=
  if text.head? = some '-' then scanUnsigned limits true text.tail
  else scanUnsigned limits false text

end Numbers

/-! ## Values -/

/-- The values that are written as a word. -/
def words : List (String × Value) :=
  [("null", .none), ("true", .bool true), ("false", .bool false), ("NaN", .float .nan),
    ("Infinity", .float (.infinity false)), ("-Infinity", .float (.infinity true))]

def scanScalar (limits : Limits) (text : List Char) : Except Exception (Value × List Char) :=
  match words.find? fun word => word.1.toList.isPrefixOf text with
  | some (word, value) => .ok (value, text.drop word.length)
  | none => scanNumber limits text

/-- Items with commas between them, up to the closing bracket. The fuel bounds their number. -/
def scanItems {α : Type} (one : List Char → Except Exception (α × List Char)) (closing : Char) :
    ℕ → List Char → Except Exception (List α × List Char)
  | 0, _ => .error .jsonDecodeError
  | fuel + 1, text => do
      let (item, rest) ← one text
      match skip rest with
      | [] => .error .jsonDecodeError
      | c :: rest =>
          if c = closing then return ([item], rest)
          else if c = ',' then do
            let (items, rest) ← scanItems one closing fuel (skip rest)
            return (item :: items, rest)
          else .error .jsonDecodeError

/-- What follows an opening bracket: the closing one, or items. -/
def scanBracket {α : Type} (one : List Char → Except Exception (α × List Char)) (closing : Char)
    (text : List Char) : Except Exception (List α × List Char) :=
  let inside := skip text
  if inside.head? = some closing then .ok ([], inside.tail)
  else scanItems one closing (inside.length + 1) inside

/-- A key, a colon and a value. -/
def scanMember (one : List Char → Except Exception (Value × List Char)) :
    List Char → Except Exception ((List Char × Value) × List Char)
  | '"' :: rest => do
      let (units, rest) ← decoded (scanString rest)
      match skip rest with
      | ':' :: rest => do
          let (value, rest) ← one (skip rest)
          return ((characters units, value), rest)
      | _ => .error .jsonDecodeError
  | _ => .error .jsonDecodeError

/-- `items[key] = value` -/
def insert (items : List (List Char × Value)) (item : List Char × Value) :
    List (List Char × Value) :=
  if items.any fun other => other.1 = item.1 then
    items.map fun other => if other.1 = item.1 then item else other
  else items ++ [item]

/-- The value at the start of a text, and what follows it. The fuel bounds the depth; it is no
limit of Python's and never runs out, see `scanOnce_fuel`. -/
def scanOnce : Limits → ℕ → List Char → Except Exception (Value × List Char)
  | _, _, [] => .error .jsonDecodeError
  | _, 0, _ => .error .jsonDecodeError
  | limits, fuel + 1, c :: rest =>
      if c = '"' then do
        let (units, rest) ← decoded (scanString rest)
        return (.str (characters units), rest)
      else if c = '[' then
        if limits.depth = some 0 then .error .recursionError
        else do
          let (items, rest) ← scanBracket (scanOnce limits.inner fuel) ']' rest
          return (.list items, rest)
      else if c = '{' then
        if limits.depth = some 0 then .error .recursionError
        else do
          let (items, rest) ← scanBracket (scanMember (scanOnce limits.inner fuel)) '}' rest
          return (.dict (items.foldl insert []), rest)
      else scanScalar limits (c :: rest)

/-! ## Enough fuel

Every scanner takes some characters away, so that a text's length is enough fuel for it.
-/

theorem length_skip_le (text : List Char) : (skip text).length ≤ text.length :=
  (List.dropWhile_suffix isBlank).length_le

/-- A string that is read takes at least its closing quote. -/
theorem length_scanString_lt {text rest : List Char} {units : List ℕ}
    (scanned : scanString text = some (units, rest)) : rest.length < text.length := by
  fun_induction scanString text generalizing units rest with
  | case1 => cases scanned
  | case2 tail =>
      cases scanned
      exact Nat.lt_succ_self _
  | case3 a b c d tail ih =>
      simp only [Option.bind_eq_bind, Option.bind_eq_some_iff] at scanned
      obtain ⟨_, -, _, -, _, -, _, -, ⟨_, _⟩, inner, result⟩ := scanned
      cases result
      have := ih inner
      simp only [List.length_cons]
      omega
  | case4 c tail other ih =>
      simp only [Option.bind_eq_bind, Option.bind_eq_some_iff] at scanned
      obtain ⟨_, -, ⟨_, _⟩, inner, result⟩ := scanned
      cases result
      have := ih inner
      simp only [List.length_cons]
      omega
  | case5 c tail notQuote notUnit notEscape ih =>
      simp only [Option.bind_eq_bind, Option.bind_eq_some_iff] at scanned
      obtain ⟨_, -, ⟨_, _⟩, inner, result⟩ := scanned
      cases result
      exact (ih inner).trans (Nat.lt_succ_self _)

theorem length_fraction_le (text : List Char) : (fraction text).2.length ≤ text.length := by
  fun_cases fraction text with
  | case1 rest none => exact le_rfl
  | case2 rest some => exact (List.dropWhile_suffix _).length_le.trans (Nat.le_succ _)
  | case3 => exact le_rfl

theorem length_exponent_le (text : List Char) : (exponent text).2.length ≤ text.length := by
  fun_cases exponent text with
  | case1 => exact le_rfl
  | case2 mark rest unsigned digits =>
      have tail : unsigned.length ≤ rest.length := by
        simp only [unsigned]
        split
        · exact (List.tail_suffix rest).length_le
        · exact le_rfl
      exact ((List.dropWhile_suffix _).length_le.trans tail).trans (Nat.le_succ _)
  | case3 => exact le_rfl

theorem length_drop_wholeDigits_lt {text : List Char} (some : wholeDigits text ≠ []) :
    (text.drop (wholeDigits text).length).length < text.length := by
  have nonempty : text ≠ [] := by
    rintro rfl
    exact some rfl
  have taken := List.length_pos_iff.mpr some
  have positive := List.length_pos_iff.mpr nonempty
  rw [List.length_drop]
  omega

/-- An outcome of the decoder is a success exactly where the scanner found something. -/
theorem decoded_eq_ok {α : Type} {found : Option α} {a : α} :
    decoded found = .ok a ↔ found = some a := by
  cases found with
  | none => exact iff_of_false (fun impossible => by cases impossible) (Option.some_ne_none a).symm
  | some b => exact ⟨fun same => congrArg some (Except.ok.inj same), fun same =>
      congrArg Except.ok (Option.some.inj same)⟩

section Scalars

variable {limits : Limits} {text rest : List Char} {value : Value}

theorem length_scanUnsigned_lt {negative : Bool}
    (scanned : scanUnsigned limits negative text = .ok (value, rest)) :
    rest.length < text.length := by
  simp only [scanUnsigned] at scanned
  split at scanned
  next => cases scanned
  next some =>
    have left := ((length_exponent_le _).trans (length_fraction_le _)).trans_lt
      (length_drop_wholeDigits_lt some)
    split at scanned
    · split at scanned
      · cases scanned
      · cases scanned
        exact left
    · cases scanned
      exact left

/-- A number that is read takes at least one character. -/
theorem length_scanNumber_lt (scanned : scanNumber limits text = .ok (value, rest)) :
    rest.length < text.length := by
  rw [scanNumber] at scanned
  split at scanned
  · exact (length_scanUnsigned_lt scanned).trans_le (List.tail_suffix text).length_le
  · exact length_scanUnsigned_lt scanned

/-- So does a word or a number. -/
theorem length_scanScalar_lt (scanned : scanScalar limits text = .ok (value, rest)) :
    rest.length < text.length := by
  unfold scanScalar at scanned
  split at scanned
  next word value found =>
    cases scanned
    have written : 0 < word.length := by
      have all : ∀ word ∈ words, 0 < word.1.length := by decide +kernel
      exact all _ (List.mem_of_find?_eq_some found)
    have isPrefix := List.find?_some found
    have shorter : word.toList.length ≤ text.length :=
      (List.isPrefixOf_iff_prefix.mp isPrefix).length_le
    rw [String.length_toList] at shorter
    rw [List.length_drop]
    omega
  next => exact length_scanNumber_lt scanned

end Scalars

/-- What a scanner leaves of a text is shorter than the text. -/
def Consumes {α : Type} (one : List Char → Except Exception (α × List Char)) : Prop :=
  ∀ text item rest, one text = .ok (item, rest) → rest.length < text.length

section Items

variable {α : Type} {one other : List Char → Except Exception (α × List Char)} {closing : Char}

/-- A loop over items consumes text if the scanner of one item does. -/
theorem scanItems_consumes (consumes : Consumes one) (fuel : ℕ) :
    Consumes (scanItems one closing fuel) := by
  induction fuel with
  | zero =>
      intro text items rest scanned
      cases scanned
  | succ fuel ih =>
      intro text items rest scanned
      simp only [scanItems, Procedure.bind_eq_ok] at scanned
      obtain ⟨⟨item, after⟩, first, scanned⟩ := scanned
      have shorter := consumes _ _ _ first
      have skipped := length_skip_le after
      split at scanned
      next => cases scanned
      next c tail left =>
        rw [left, List.length_cons] at skipped
        split at scanned
        · cases scanned
          omega
        split at scanned
        · obtain ⟨⟨others, remaining⟩, more, result⟩ := Procedure.bind_eq_ok.mp scanned
          have shrinks := ih _ _ _ more
          have left := length_skip_le tail
          cases result
          exact shrinks.trans (left.trans_lt (by omega))
        · cases scanned

/-- Scanning items depends on what happens to texts that are not longer, and on no more
fuel than the text is long. -/
theorem scanItems_congr (consumes : Consumes one) {fuel fuel' : ℕ} {text : List Char}
    (agree : ∀ shorter : List Char, shorter.length ≤ text.length → one shorter = other shorter)
    (enough : text.length < fuel) (enough' : text.length < fuel') :
    scanItems one closing fuel text = scanItems other closing fuel' text := by
  induction fuel generalizing fuel' text with
  | zero => exact absurd enough (Nat.not_lt_zero _)
  | succ fuel ih =>
      cases fuel' with
      | zero => exact absurd enough' (Nat.not_lt_zero _)
      | succ fuel' =>
          rw [scanItems, scanItems, ← agree text le_rfl]
          cases first : one text with
          | error raised => rfl
          | ok result =>
              obtain ⟨item, after⟩ := result
              have shorter := consumes _ _ _ first
              have skipped := length_skip_le after
              simp only [Procedure.ok_bind]
              split
              next => rfl
              next c tail left =>
                have left' := length_skip_le tail
                rw [left, List.length_cons] at skipped
                rw [@ih fuel' (skip tail) (fun short le => agree short (by omega)) (by omega)
                  (by omega)]

theorem length_scanBracket_le (consumes : Consumes one) {text rest : List Char} {items : List α}
    (scanned : scanBracket one closing text = .ok (items, rest)) : rest.length ≤ text.length := by
  have skipped := length_skip_le text
  rw [scanBracket] at scanned
  split at scanned
  · cases scanned
    exact (List.tail_suffix _).length_le.trans skipped
  · exact (scanItems_consumes consumes _ _ _ _ scanned).le.trans skipped

/-- Two scanners that agree on all texts not longer than this one read the same bracket from it. -/
theorem scanBracket_congr (consumes : Consumes one) {text : List Char}
    (agree : ∀ shorter : List Char, shorter.length ≤ text.length → one shorter = other shorter) :
    scanBracket one closing text = scanBracket other closing text := by
  have skipped := length_skip_le text
  rw [scanBracket, scanBracket, scanItems_congr consumes
    (fun shorter le => agree shorter (le.trans skipped)) (Nat.lt_succ_self _) (Nat.lt_succ_self _)]

end Items

section Members

variable {one other : List Char → Except Exception (Value × List Char)}

/-- A member consumes text if its value does. -/
theorem scanMember_consumes (consumes : Consumes one) : Consumes (scanMember one) := by
  intro text item rest scanned
  unfold scanMember at scanned
  split at scanned
  next text tail =>
    simp only [Procedure.bind_eq_ok, decoded_eq_ok] at scanned
    obtain ⟨⟨units, after⟩, key, scanned⟩ := scanned
    have keyShorter := length_scanString_lt key
    have skipped := length_skip_le after
    split at scanned
    next colon left =>
      obtain ⟨⟨value, remaining⟩, found, result⟩ := Procedure.bind_eq_ok.mp scanned
      have valueShorter := consumes _ _ _ found
      have skipped' := length_skip_le colon
      cases result
      rw [left] at skipped
      simp only [List.length_cons] at skipped ⊢
      omega
    next => cases scanned
  next => cases scanned

/-- A member depends on the scanner of values at shorter texts only. -/
theorem scanMember_congr {text : List Char}
    (agree : ∀ shorter : List Char, shorter.length ≤ text.length → one shorter = other shorter) :
    scanMember one text = scanMember other text := by
  unfold scanMember
  split
  next text tail =>
    cases key : scanString tail with
    | none => rfl
    | some result =>
        obtain ⟨units, after⟩ := result
        have keyShorter := length_scanString_lt key
        have skipped := length_skip_le after
        simp only [decoded, Procedure.ok_bind]
        split
        next colon left =>
          have skipped' := length_skip_le colon
          rw [left, List.length_cons] at skipped
          rw [agree (skip colon) (by rw [List.length_cons]; omega)]
        next => rfl
  next => rfl

end Members

/-- Every value that is read takes at least one character. -/
theorem scanOnce_consumes (limits : Limits) (fuel : ℕ) : Consumes (scanOnce limits fuel) := by
  induction fuel generalizing limits with
  | zero =>
      intro text value rest scanned
      cases text with
      | nil => cases scanned
      | cons c tail => cases scanned
  | succ fuel ih =>
      intro text value rest scanned
      cases text with
      | nil => cases scanned
      | cons c tail =>
          have skipped := length_skip_le tail
          simp only [scanOnce] at scanned
          split at scanned
          · simp only [Procedure.bind_eq_ok, decoded_eq_ok] at scanned
            obtain ⟨⟨units, after⟩, found, result⟩ := scanned
            cases result
            exact (length_scanString_lt found).trans (Nat.lt_succ_self _)
          split at scanned
          · split at scanned
            · cases scanned
            · obtain ⟨⟨items, after⟩, found, result⟩ := Procedure.bind_eq_ok.mp scanned
              cases result
              exact Nat.lt_succ_of_le (length_scanBracket_le (ih _) found)
          split at scanned
          · split at scanned
            · cases scanned
            · obtain ⟨⟨items, after⟩, found, result⟩ := Procedure.bind_eq_ok.mp scanned
              cases result
              exact Nat.lt_succ_of_le (length_scanBracket_le (scanMember_consumes (ih _)) found)
          · exact length_scanScalar_lt scanned

/-- Fuel beyond the length of the text changes nothing. -/
theorem scanOnce_succ {limits : Limits} {fuel : ℕ} {text : List Char}
    (enough : text.length ≤ fuel) :
    scanOnce limits (fuel + 1) text = scanOnce limits fuel text := by
  induction fuel generalizing limits text with
  | zero =>
      obtain rfl := List.length_eq_zero_iff.mp (Nat.le_zero.mp enough)
      rfl
  | succ fuel ih =>
      cases text with
      | nil => rfl
      | cons c tail =>
          have agree : ∀ shorter : List Char, shorter.length ≤ tail.length →
              scanOnce limits.inner (fuel + 1) shorter = scanOnce limits.inner fuel shorter :=
            fun shorter le => ih (le.trans (Nat.le_of_succ_le_succ enough))
          rw [scanOnce, scanOnce, scanBracket_congr (scanOnce_consumes _ _) agree,
            scanBracket_congr (scanMember_consumes (scanOnce_consumes _ _))
              fun shorter le => scanMember_congr fun shorter' le' => agree shorter' (le'.trans le)]

/-- More fuel than the text is long changes nothing. -/
theorem scanOnce_fuel {limits : Limits} {fuel : ℕ} {text : List Char}
    (enough : text.length ≤ fuel) :
    scanOnce limits fuel text = scanOnce limits text.length text := by
  induction fuel, enough using Nat.le_induction with
  | base => rfl
  | succ fuel enough ih => rw [scanOnce_succ enough, ih]

/-! ## Exceptions -/

/-- Every exception of a scanner is of the given kind. -/
def Raises {α : Type} (one : List Char → Except Exception (α × List Char))
    (kind : Exception → Prop) : Prop :=
  ∀ text raised, one text = .error raised → kind raised

/-- What the decoder can raise: a `ValueError`, or a `RecursionError` where the depth is bounded. -/
def Raised (limits : Limits) (raised : Exception) : Prop :=
  raised.IsValueError ∨ raised = .recursionError ∧ limits.depth ≠ none

/-- One bracket deeper the decoder raises the same kinds of exceptions. -/
theorem raised_inner {limits : Limits} {raised : Exception} :
    Raised limits.inner raised ↔ Raised limits raised := by
  simp only [Raised, Limits.inner, ne_eq, Option.map_eq_none_iff]

/-- Where the scanner finds nothing, the exception is a `ValueError`. -/
theorem decoded_error {α : Type} {found : Option α} {raised : Exception}
    (failed : decoded found = .error raised) : raised.IsValueError := by
  cases found with
  | none =>
      cases failed
      trivial
  | some a => cases failed

/-- A word or a number raises a `ValueError`, if anything. -/
theorem scanScalar_raises (limits : Limits) :
    Raises (scanScalar limits) Exception.IsValueError := by
  have unsigned : ∀ negative, Raises (scanUnsigned limits negative) Exception.IsValueError := by
    intro negative text raised failed
    simp only [scanUnsigned] at failed
    split_ifs at failed
    all_goals
      cases failed
      trivial
  intro text raised failed
  unfold scanScalar at failed
  split at failed
  next => cases failed
  next =>
    rw [scanNumber] at failed
    split at failed
    · exact unsigned _ _ _ failed
    · exact unsigned _ _ _ failed

section Scanners

variable {α : Type} {one : List Char → Except Exception (α × List Char)}
  {member : List Char → Except Exception (Value × List Char)} {kind : Exception → Prop}

/-- A loop over items raises what one item may raise, or `JSONDecodeError`. -/
theorem scanItems_raises (raises : Raises one kind) (decode : kind .jsonDecodeError)
    (closing : Char) (fuel : ℕ) : Raises (scanItems one closing fuel) kind := by
  induction fuel with
  | zero =>
      intro text raised failed
      cases failed
      exact decode
  | succ fuel ih =>
      intro text raised failed
      simp only [scanItems, Procedure.bind_eq_error] at failed
      rcases failed with failed | ⟨⟨item, after⟩, -, failed⟩
      · exact raises _ _ failed
      split at failed
      next =>
        cases failed
        exact decode
      next c tail left =>
        split at failed
        · cases failed
        split at failed
        · rcases Procedure.bind_eq_error.mp failed with failed | ⟨_, -, impossible⟩
          · exact ih _ _ failed
          · cases impossible
        · cases failed
          exact decode

/-- So does a bracket. -/
theorem scanBracket_raises (raises : Raises one kind) (decode : kind .jsonDecodeError)
    (closing : Char) : Raises (scanBracket one closing) kind := by
  intro text raised failed
  rw [scanBracket] at failed
  split at failed
  · cases failed
  · exact scanItems_raises raises decode closing _ _ _ failed

/-- A member raises what its value may raise, or a `ValueError`. -/
theorem scanMember_raises (raises : Raises member kind)
    (decode : ∀ raised : Exception, raised.IsValueError → kind raised) :
    Raises (scanMember member) kind := by
  intro text raised failed
  unfold scanMember at failed
  split at failed
  next text tail =>
    rcases Procedure.bind_eq_error.mp failed with failed | ⟨⟨units, after⟩, -, failed⟩
    · exact decode _ (decoded_error failed)
    simp only at failed
    split at failed
    next colon left =>
      rcases Procedure.bind_eq_error.mp failed with failed | ⟨_, -, impossible⟩
      · exact raises _ _ failed
      · cases impossible
    next =>
      cases failed
      exact decode _ trivial
  next =>
    cases failed
    exact decode _ trivial

end Scanners

/-- Bad syntax and long numbers are `ValueError`s; only nesting makes another exception. -/
theorem scanOnce_raises (limits : Limits) (fuel : ℕ) :
    Raises (scanOnce limits fuel) (Raised limits) := by
  induction fuel generalizing limits with
  | zero =>
      intro text raised failed
      cases text <;> cases failed <;> exact Or.inl trivial
  | succ fuel ih =>
      have inside : Raises (scanOnce limits.inner fuel) (Raised limits) :=
        fun text raised failed => raised_inner.mp (ih _ _ _ failed)
      have tooDeep : limits.depth = some 0 → Raised limits .recursionError :=
        fun full => Or.inr ⟨rfl, full ▸ Option.some_ne_none 0⟩
      intro text raised failed
      cases text with
      | nil =>
          cases failed
          exact Or.inl trivial
      | cons c tail =>
          simp only [scanOnce] at failed
          split at failed
          · rcases Procedure.bind_eq_error.mp failed with failed | ⟨_, -, impossible⟩
            · exact Or.inl (decoded_error failed)
            · cases impossible
          split at failed
          · split at failed
            next full =>
              cases failed
              exact tooDeep full
            next =>
              rcases Procedure.bind_eq_error.mp failed with failed | ⟨_, -, impossible⟩
              · exact scanBracket_raises inside (Or.inl trivial) ']' _ _ failed
              · cases impossible
          split at failed
          · split at failed
            next full =>
              cases failed
              exact tooDeep full
            next =>
              rcases Procedure.bind_eq_error.mp failed with failed | ⟨_, -, impossible⟩
              · exact scanBracket_raises (scanMember_raises inside fun _ => Or.inl)
                  (Or.inl trivial) '}' _ _ failed
              · cases impossible
          · exact Or.inl (scanScalar_raises limits _ _ failed)

end Json

/-- `json.loads(text)` -/
def loads (limits : Json.Limits) (text : List Char) : Except Exception Value := do
  let (value, rest) ← Json.scanOnce limits text.length (Json.skip text)
  if Json.skip rest = [] then return value
  else .error .jsonDecodeError

/-- What `json.loads` can raise. -/
theorem loads_error {limits : Json.Limits} {text : List Char} {raised : Exception}
    (failed : loads limits text = .error raised) : Json.Raised limits raised := by
  rcases Procedure.bind_eq_error.mp failed with failed | ⟨⟨value, rest⟩, -, failed⟩
  · exact Json.scanOnce_raises _ _ _ _ failed
  · simp only at failed
    split at failed
    · cases failed
    · cases failed
      exact Or.inl trivial

end BirrTrack.Python
