import BirrTrack.Foundation.Decimal
import Mathlib.Data.List.TakeWhile

/-! # Python texts

White space, `str.strip`, `str.replace` and the decimal digits, as Python 3.10 knows them
from Unicode 13. Texts are lists of characters.
-/

namespace BirrTrack.Python

/-- `str.isspace`, which is also `\s`. -/
def isSpace (c : Char) : Bool :=
  let n := c.toNat
  9 ≤ n ∧ n ≤ 13 ∨ 28 ≤ n ∧ n ≤ 32 ∨ n = 0x85 ∨ n = 0xA0 ∨ n = 0x1680 ∨
    0x2000 ≤ n ∧ n ≤ 0x200A ∨ n = 0x2028 ∨ n = 0x2029 ∨ n = 0x202F ∨ n = 0x205F ∨ n = 0x3000

/-- `text.strip()` -/
def strip (text : List Char) : List Char :=
  ((text.dropWhile isSpace).reverse.dropWhile isSpace).reverse

/-- A text without white space at its two ends. -/
def Stripped (text : List Char) : Prop :=
  (∀ c ∈ text.head?, isSpace c = false) ∧ ∀ c ∈ text.getLast?, isSpace c = false

theorem stripped_of_forall {text : List Char} (none : ∀ c ∈ text, isSpace c = false) :
    Stripped text :=
  ⟨fun c first => none c (List.mem_of_head? first),
    fun c last => none c (List.mem_of_getLast? last)⟩

theorem head?_dropWhile_isSpace {text : List Char} {c : Char}
    (member : c ∈ (text.dropWhile isSpace).head?) : isSpace c = false := by
  have first := List.head?_dropWhile_not isSpace text
  rw [Option.mem_def.mp member] at first
  exact first

/-- What `strip` leaves has no white space at its ends. -/
theorem strip_stripped (text : List Char) : Stripped (strip text) := by
  have back : ∀ c ∈ (strip text).getLast?, isSpace c = false := by
    intro c member
    rw [strip, List.getLast?_reverse] at member
    exact head?_dropWhile_isSpace member
  refine ⟨?_, back⟩
  -- What is stripped from the end leaves the front as it is.
  obtain ⟨tail, split⟩ : strip text <+: text.dropWhile isSpace := by
    rw [strip, ← List.reverse_suffix, List.reverse_reverse]
    exact List.dropWhile_suffix isSpace
  intro c member
  apply @head?_dropWhile_isSpace text
  rw [← split, List.head?_append, Option.mem_def.mp member]
  rfl

/-- Text that is white space only. -/
def White (text : List Char) : Prop := ∀ c ∈ text, isSpace c = true

/-- What `strip` takes away is white space. -/
theorem exists_strip (text : List Char) :
    ∃ front back, text = front ++ (strip text ++ back) ∧ White front ∧ White back := by
  refine ⟨text.takeWhile isSpace, ((text.dropWhile isSpace).reverse.takeWhile isSpace).reverse,
    ?_, ?_, ?_⟩
  · rw [strip, ← List.reverse_append, List.takeWhile_append_dropWhile, List.reverse_reverse,
      List.takeWhile_append_dropWhile]
  · exact fun c member => List.all_eq_true.mp List.all_takeWhile c member
  · intro c member
    exact List.all_eq_true.mp List.all_takeWhile c (List.mem_reverse.mp member)

/-- `strip` takes off white ends, and nothing of a text that has none. -/
theorem strip_of_white {front text back : List Char} (white : White front) (white' : White back)
    (nonempty : text ≠ []) (stripped : Stripped text) : strip (front ++ (text ++ back)) = text := by
  have ends : ∀ {text rest : List Char}, text ≠ [] → (∀ c ∈ text.head?, isSpace c = false) →
      (text ++ rest).dropWhile isSpace = text ++ rest := by
    intro text rest nonempty first
    obtain ⟨c, others, rfl⟩ := List.exists_cons_of_ne_nil nonempty
    exact List.dropWhile_cons_of_neg (by rw [first c rfl]; exact Bool.false_ne_true)
  have first : ∀ c ∈ text.reverse.head?, isSpace c = false := by
    intro c member
    rw [List.head?_reverse] at member
    exact stripped.2 c member
  rw [strip, List.dropWhile_append_of_pos white, ends nonempty stripped.1, List.reverse_append,
    List.dropWhile_append_of_pos fun c member => white' c (List.mem_reverse.mp member),
    ← List.append_nil text.reverse, ends (List.reverse_ne_nil_iff.mpr nonempty) first,
    List.append_nil, List.reverse_reverse]

theorem Stripped.strip_eq {text : List Char} (stripped : Stripped text) : strip text = text := by
  have nothing : White [] := fun c member => absurd member List.not_mem_nil
  by_cases empty : text = []
  · rw [empty]
    rfl
  · have whole := strip_of_white nothing nothing empty stripped
    rwa [List.nil_append, List.append_nil] at whole

/-- `strip` leaves nothing of a text exactly if it is all white space. -/
theorem strip_eq_nil_iff {text : List Char} : strip text = [] ↔ White text := by
  constructor
  · intro nothing
    obtain ⟨front, back, split, white, white'⟩ := exists_strip text
    rw [nothing, List.nil_append] at split
    rw [split]
    exact fun c member => (List.mem_append.mp member).elim (white c) (white' c)
  · intro white
    rw [strip, List.dropWhile_eq_nil_iff.mpr white]
    rfl

/-- White space around a text does not matter. -/
theorem strip_append_white {front back : List Char} (white : White front) (white' : White back)
    (text : List Char) : strip (front ++ (text ++ back)) = strip text := by
  obtain ⟨front', back', split, within, within'⟩ := exists_strip text
  have around : White (front ++ front') ∧ White (back' ++ back) :=
    ⟨fun c member => (List.mem_append.mp member).elim (white c) (within c),
      fun c member => (List.mem_append.mp member).elim (within' c) (white' c)⟩
  have joined : front ++ (text ++ back) =
      (front ++ front') ++ (strip text ++ (back' ++ back)) := by
    conv_lhs => rw [split]
    simp only [List.append_assoc]
  by_cases nothing : strip text = []
  · rw [nothing, strip_eq_nil_iff, joined, nothing, List.nil_append]
    exact fun c member => (List.mem_append.mp member).elim (around.1 c) (around.2 c)
  · rw [joined, strip_of_white around.1 around.2 nothing (strip_stripped text)]

/-- The walk of `text.replace(old, new)`; `skip` characters still belong to an
occurrence of `old`. -/
def replaceFrom (old new : List Char) : ℕ → List Char → List Char
  | _, [] => []
  | skip + 1, _ :: rest => replaceFrom old new skip rest
  | 0, c :: rest =>
      if old.isPrefixOf (c :: rest) then new ++ replaceFrom old new (old.length - 1) rest
      else c :: replaceFrom old new 0 rest

/-- `text.replace(old, new)` for a nonempty `old` -/
def replace (old new text : List Char) : List Char := replaceFrom old new 0 text

section Replace

variable {old front : List Char} {c : Char}

/-- Behind an occurrence, replacement goes on with the rest of the text. -/
theorem replaceFrom_length (old new front rest : List Char) :
    replaceFrom old new front.length (front ++ rest) = replace old new rest := by
  induction front with
  | nil => rfl
  | cons c front ih => exact ih

/-- Deletions leave a part of the text. -/
theorem replace_sublist (old text : List Char) : (replace old [] text).Sublist text := by
  have walk : ∀ (text : List Char) (skip : ℕ), (replaceFrom old [] skip text).Sublist text := by
    intro text
    induction text with
    | nil => exact fun skip => by cases skip <;> exact List.Sublist.refl []
    | cons c text ih =>
        rintro (_ | skip)
        · rw [replaceFrom]
          split
          · exact (ih _).cons c
          · exact (ih 0).cons_cons c
        · exact (ih skip).cons c
  exact walk text 0

/-- An occurrence at the start of a text is replaced. -/
theorem replace_append_self (nonempty : old ≠ []) (new rest : List Char) :
    replace old new (old ++ rest) = new ++ replace old new rest := by
  obtain ⟨c, others, rfl⟩ := List.exists_cons_of_ne_nil nonempty
  have occurs : (c :: others).isPrefixOf (c :: (others ++ rest)) = true :=
    List.isPrefixOf_iff_prefix.mpr (List.prefix_append (c :: others) rest)
  rw [List.cons_append, replace, replaceFrom, if_pos occurs]
  exact congrArg (new ++ ·) (replaceFrom_length (c :: others) new others rest)

/-- A character at which `old` does not start is kept. -/
theorem replace_cons {rest : List Char} (other : ¬ old <+: c :: rest) (new : List Char) :
    replace old new (c :: rest) = c :: replace old new rest := by
  rw [replace, replaceFrom, if_neg fun occurs => other (List.isPrefixOf_iff_prefix.mp occurs)]
  rfl

/-- No occurrence begins before a text without its first character ends. -/
theorem replace_append_of_not_mem (absent : c ∉ front) (new rest : List Char) :
    replace (c :: old) new (front ++ rest) = front ++ replace (c :: old) new rest := by
  induction front with
  | nil => rfl
  | cons d front ih =>
      obtain ⟨apart, absent⟩ := not_or.mp (List.mem_cons.not.mp absent)
      rw [List.cons_append, replace_cons fun occurs => apart (List.cons_prefix_cons.mp occurs).1,
        ih absent]
      rfl

/-- A text without `c` that starts in front of `c` ends in front of it. -/
theorem prefix_of_prefix_append {back : List Char} (absent : c ∉ old)
    (occurs : old <+: front ++ c :: back) : old <+: front := by
  have through : front ++ [c] <+: front ++ c :: back := ⟨back, by simp⟩
  rcases List.prefix_or_prefix_of_prefix occurs through with within | beyond
  · rcases List.prefix_concat_iff.mp within with rfl | before
    · exact absurd (by simp) absent
    · exact before
  · exact absurd (beyond.subset (by simp)) absent

/-- No occurrence goes beyond a character that it does not have. -/
theorem replace_append_cons (nonempty : old ≠ []) (absent : c ∉ old) (new front back : List Char) :
    replace old new (front ++ c :: back) = replace old new front ++ c :: replace old new back := by
  have walk : ∀ (front : List Char) (skip : ℕ), skip ≤ front.length →
      replaceFrom old new skip (front ++ c :: back) =
        replaceFrom old new skip front ++ c :: replace old new back := by
    intro front
    induction front with
    | nil =>
        intro skip within
        obtain rfl := Nat.le_zero.mp within
        refine replace_cons (fun occurs => nonempty ?_) new
        exact List.prefix_nil.mp (@prefix_of_prefix_append old [] c back absent occurs)
    | cons d front ih =>
        rintro (_ | skip) within
        · by_cases occurs : old <+: d :: front
          · have longer : old.isPrefixOf (d :: (front ++ c :: back)) = true :=
              List.isPrefixOf_iff_prefix.mpr (occurs.trans (List.prefix_append _ _))
            have shorter : old.isPrefixOf (d :: front) = true :=
              List.isPrefixOf_iff_prefix.mpr occurs
            have fits : old.length - 1 ≤ front.length := by
              have := occurs.length_le
              rw [List.length_cons] at this
              omega
            rw [List.cons_append, replaceFrom, replaceFrom, if_pos longer, if_pos shorter,
              ih _ fits, List.append_assoc]
          · have notLonger : ¬ old <+: d :: (front ++ c :: back) :=
              fun longer => occurs (prefix_of_prefix_append absent longer)
            have kept := ih 0 (Nat.zero_le _)
            rw [List.cons_append]
            exact (replace_cons notLonger new).trans
              ((congrArg (d :: ·) kept).trans
                (congrArg (· ++ c :: replace old new back) (replace_cons occurs new).symm))
        · exact ih skip (Nat.le_of_succ_le_succ within)
  exact walk front 0 (Nat.zero_le _)

end Replace

/-! ## Decimal digits -/

/-- The digits zero of Unicode; each is followed by the other nine digits of its script. -/
def zeros : List ℕ :=
  [0x30, 0x660, 0x6F0, 0x7C0, 0x966, 0x9E6, 0xA66, 0xAE6, 0xB66, 0xBE6, 0xC66, 0xCE6, 0xD66, 0xDE6,
    0xE50, 0xED0, 0xF20, 0x1040, 0x1090, 0x17E0, 0x1810, 0x1946, 0x19D0, 0x1A80, 0x1A90, 0x1B50,
    0x1BB0, 0x1C40, 0x1C50, 0xA620, 0xA8D0, 0xA900, 0xA9D0, 0xA9F0, 0xAA50, 0xABF0, 0xFF10, 0x104A0,
    0x10D30, 0x11066, 0x110F0, 0x11136, 0x111D0, 0x112F0, 0x11450, 0x114D0, 0x11650, 0x116C0,
    0x11730, 0x118E0, 0x11950, 0x11C50, 0x11D50, 0x11DA0, 0x16A60, 0x16B50, 0x1D7CE, 0x1D7D8,
    0x1D7E2, 0x1D7EC, 0x1D7F6, 0x1E140, 0x1E2F0, 0x1E950, 0x1FBF0]

/-- The value of a decimal digit. -/
def decimal (c : Char) : Option ℕ :=
  (zeros.find? fun first => first ≤ c.toNat ∧ c.toNat < first + 10).map (c.toNat - ·)

/-- `\d` -/
def isDecimal (c : Char) : Bool := (decimal c).isSome

/-- The ASCII digit that `int` and `float` read for a decimal digit. -/
def toAscii (c : Char) : Char := (decimal c).elim c Nat.digitChar

/-- An ASCII digit is a decimal digit of its own value. -/
theorem decimal_of_isDigit {c : Char} (isDigit : c.isDigit = true) :
    decimal c = some (c.toNat - 48) := by
  obtain ⟨low, high⟩ := Decimal.toNat_of_isDigit isDigit
  have ascii : zeros = 48 :: zeros.tail := rfl
  rw [decimal, ascii, List.find?_cons_of_pos (by simp only [decide_eq_true_eq]; omega),
    Option.map_some]

theorem isDecimal_of_isDigit {c : Char} (isDigit : c.isDigit = true) : isDecimal c = true := by
  rw [isDecimal, decimal_of_isDigit isDigit]
  rfl

/-- An ASCII digit is kept as it is. -/
theorem toAscii_of_isDigit {c : Char} (isDigit : c.isDigit = true) : toAscii c = c := by
  obtain ⟨low, high⟩ := Decimal.toNat_of_isDigit isDigit
  rw [toAscii, decimal_of_isDigit isDigit, Option.elim_some]
  apply Char.toNat_inj.mp
  rw [Nat.toNat_digitChar_of_lt_ten (by omega)]
  omega

end BirrTrack.Python
