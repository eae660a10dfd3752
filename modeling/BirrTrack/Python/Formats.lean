import BirrTrack.Foundation.Language
import BirrTrack.Python.Datetime

/-! # Formats of dates and times

What a format writes is read by `strptime` with the same format, up to the fields that it leaves
out. With another format it is read only where both have the same marks between their fields.
-/

namespace BirrTrack.Python

open Backtracking Pattern
open Decimal (padded)

def directives : List Char := ['Y', 'm', 'd', 'H', 'M', 'S']

def separators : List Char := ['-', '/', ':', 'T', ' ']

/-- A format of fields and marks, in which a blank stands before a field. -/
def readable : List Char → Bool
  | [] => true
  | '%' :: c :: rest => c ∈ directives && readable rest
  | c :: rest => c ∈ separators && (c ≠ ' ' || rest.head? = some '%') && readable rest

/-- A field is in the format. -/
def uses : List Char → Char → Bool
  | '%' :: d :: rest, c => d = c || uses rest c
  | _ :: rest, c => uses rest c
  | [], _ => false

/-- The group of a directive's pattern. -/
def groupOf : Char → ℕ
  | 'Y' => 1
  | 'm' => 2
  | 'd' => 3
  | 'H' => 4
  | 'M' => 5
  | 'S' => 6
  | _ => 0

/-- The number of digits in which a directive writes its field. -/
def digitsOf : Char → ℕ
  | 'Y' => 4
  | _ => 2

def Datetime.part (moment : Datetime) : Char → ℕ
  | 'Y' => moment.date.year.natAbs
  | 'm' => moment.date.month + 1
  | 'd' => moment.date.day
  | 'H' => moment.seconds / 3600
  | 'M' => moment.seconds / 60 % 60
  | 'S' => moment.seconds % 60
  | _ => 0

/-- `moment.strftime(format)`; the C library writes a year in as many digits as it has. -/
def Datetime.strftime (moment : Datetime) : List Char → List Char
  | '%' :: 'Y' :: rest => Nat.toDigits 10 (moment.part 'Y') ++ moment.strftime rest
  | '%' :: c :: rest => padded 2 (moment.part c) ++ moment.strftime rest
  | c :: rest => c :: moment.strftime rest
  | [] => []

/-- The fields of a format in the digits that `strptime` reads. -/
def Datetime.written (moment : Datetime) : List Char → List Char
  | '%' :: c :: rest => padded (digitsOf c) (moment.part c) ++ moment.written rest
  | c :: rest => c :: moment.written rest
  | [] => []

theorem toDigits_of_fourDigits {n : ℕ} (low : 1000 ≤ n) (high : n < 10000) :
    Nat.toDigits 10 n = padded 4 n := by
  rw [Nat.toDigits_of_base_le (by decide) (by omega),
    Nat.toDigits_of_base_le (by decide) (by omega),
    Nat.toDigits_of_base_le (by decide) (by omega), Nat.toDigits_of_lt_base (by omega)]
  simp only [padded, List.nil_append, List.append_assoc]
  rw [Nat.mod_eq_of_lt (show n / 10 / 10 / 10 < 10 by omega)]

/-- From the year 1000 on all fields are written in the digits that are read. -/
theorem strftime_eq_written {moment : Datetime} (fourDigits : 1000 ≤ moment.date.year)
    (format : List Char) : moment.strftime format = moment.written format := by
  have low : 1000 ≤ moment.part 'Y' := by
    change 1000 ≤ moment.date.year.natAbs
    omega
  have high : moment.part 'Y' < 10000 := by
    have := moment.year.2
    change moment.date.year.natAbs < 10000
    omega
  fun_induction moment.strftime format with
  | case1 rest ih => rw [Datetime.written, ih, toDigits_of_fourDigits low high, digitsOf]
  | case2 c rest other ih =>
      have two : digitsOf c = 2 := by
        unfold digitsOf
        split
        · exact absurd rfl other
        · rfl
      rw [Datetime.written, ih, two]
  | case3 c rest noYear noField ih =>
      rw [Datetime.written, ih]
      exact noField
  | case4 => rfl

theorem written_cons (moment : Datetime) {c : Char} {rest : List Char} (mark : c ≠ '%') :
    moment.written (c :: rest) = c :: moment.written rest := by
  rw [Datetime.written]
  exact fun _ _ same _ => mark same

theorem uses_cons {c : Char} {rest : List Char} (mark : c ≠ '%') :
    uses (c :: rest) = uses rest := by
  funext d
  rw [uses]
  exact fun _ _ same _ => mark same

theorem formatPattern_cons {c : Char} {rest : List Char} (mark : c ≠ '%') :
    formatPattern (c :: rest) =
      .seq (if isSpace c then .plus (.char isSpace) else .litI c) (formatPattern rest) := by
  rw [formatPattern]
  exact fun _ _ same _ => mark same

theorem ne_percent_of_separator {c : Char} (separator : c ∈ separators) : c ≠ '%' := by
  rintro rfl
  revert separator
  decide

/-- Induction over a format that is readable. -/
@[elab_as_elim]
theorem readable_induction {property : List Char → Prop} (empty : property [])
    (directive : ∀ c rest, c ∈ directives → property rest → property ('%' :: c :: rest))
    (mark : ∀ c rest, c ∈ separators → c ≠ ' ' → property rest → property (c :: rest))
    (blank : ∀ c rest, c ∈ directives → property ('%' :: c :: rest) →
      property (' ' :: '%' :: c :: rest))
    (format : List Char) (isReadable : readable format = true) : property format := by
  fun_induction readable format with
  | case1 => exact empty
  | case2 c rest ih =>
      rw [Bool.and_eq_true, decide_eq_true_eq] at isReadable
      exact directive c rest isReadable.1 (ih isReadable.2)
  | case3 c rest other ih =>
      simp only [Bool.and_eq_true, Bool.or_eq_true, decide_eq_true_eq] at isReadable
      obtain ⟨⟨separator, next⟩, later⟩ := isReadable
      rcases next with notBlank | percent
      · exact mark c rest separator notBlank (ih later)
      · cases rest with
        | nil => cases percent
        | cons d rest =>
            obtain rfl : d = '%' := Option.some.inj percent
            cases rest with
            | nil => cases later
            | cons d rest =>
                by_cases same : c = ' '
                · subst same
                  have known : d ∈ directives := by
                    rw [readable, Bool.and_eq_true, decide_eq_true_eq] at later
                    exact later.1
                  exact blank d rest known (ih later)
                · exact mark c _ separator same (ih later)

/-! ## What a format writes, it reads -/

section Reading

variable {before rest : List Char} {groups : ℕ → Option Capture}

/-- A choice whose first alternatives are pairs of characters takes two characters that are one
of the pairs. -/
theorem first_oneOf_pairs {pairs : List ((Char → Bool) × (Char → Bool))} {others : List Pattern}
    (some : others ≠ []) {c d : Char} (pair : pairs.any (fun p => p.1 c && p.2 d) = true) :
    First (oneOf (pairs.map (fun p => .seq (.char p.1) (.char p.2)) ++ others))
      ⟨before, c :: d :: rest, groups⟩ ⟨d :: c :: before, rest, groups⟩ := by
  induction pairs with
  | nil => cases pair
  | cons p pairs ih =>
      have choice : oneOf ((p :: pairs).map (fun p => Pattern.seq (.char p.1) (.char p.2)) ++
          others) = .alt (.seq (.char p.1) (.char p.2))
            (oneOf (pairs.map (fun p => .seq (.char p.1) (.char p.2)) ++ others)) := by
        rw [List.map_cons, List.cons_append, oneOf]
        intro none
        exact some (List.append_eq_nil_iff.mp none).2
      rw [choice]
      by_cases here : p.1 c = true ∧ p.2 d = true
      · exact First.alt (First.seq (first_char here.1) (first_char here.2))
      · rw [List.any_cons, Bool.or_eq_true, Bool.and_eq_true, or_iff_right here] at pair
        refine First.alt_right ?_ (ih pair)
        rw [not_and, Bool.not_eq_true] at here
        by_cases accepted : p.1 c = true
        · rw [run_seq, run_char_of_accepts accepted, List.flatMap_singleton]
          refine run_char_eq_nil fun e first => ?_
          obtain rfl := Option.some.inj first
          exact here accepted
        · refine run_seq_eq_nil_left (run_char_eq_nil fun e first => ?_)
          obtain rfl := Option.some.inj first
          exact Bool.not_eq_true _ ▸ accepted

theorem padded_two (n : ℕ) : padded 2 n = [(n / 10 % 10).digitChar, (n % 10).digitChar] := rfl

/-- The fields in two digits, as pairs of characters. -/
def pairsOf : Char → List ((Char → Bool) × (Char → Bool))
  | 'm' => [(fun c => c = '1', fun c => '0' ≤ c ∧ c ≤ '2'),
      (fun c => c = '0', fun c => '1' ≤ c ∧ c ≤ '9')]
  | 'd' => [(fun c => c = '3', fun c => '0' ≤ c ∧ c ≤ '1'),
      (fun c => '1' ≤ c ∧ c ≤ '2', isDecimal), (fun c => c = '0', fun c => '1' ≤ c ∧ c ≤ '9')]
  | 'H' => [(fun c => c = '2', fun c => '0' ≤ c ∧ c ≤ '3'),
      (fun c => '0' ≤ c ∧ c ≤ '1', isDecimal)]
  | 'M' => [(fun c => '0' ≤ c ∧ c ≤ '5', isDecimal)]
  | 'S' => [(fun c => c = '6', fun c => '0' ≤ c ∧ c ≤ '1'),
      (fun c => '0' ≤ c ∧ c ≤ '5', isDecimal)]
  | _ => []

/-- The digits of a number are one of the pairs. -/
def isPair (c : Char) (n : ℕ) : Bool :=
  (pairsOf c).any fun p => p.1 (n / 10 % 10).digitChar && p.2 (n % 10).digitChar

theorem isPair_part (moment : Datetime) {c : Char} (known : c ∈ directives) (short : c ≠ 'Y') :
    isPair c (moment.part c) = true := by
  have month : ∀ n < 12, isPair 'm' (n + 1) = true := by decide
  have day : ∀ n < 31, isPair 'd' (n + 1) = true := by decide
  have hour : ∀ n < 24, isPair 'H' n = true := by decide
  have minute : ∀ n < 60, isPair 'M' n = true := by decide
  have second : ∀ n < 60, isPair 'S' n = true := by decide
  have inDay := moment.inDay
  simp only [directives, List.mem_cons, List.not_mem_nil, or_false] at known
  rcases known with rfl | rfl | rfl | rfl | rfl | rfl
  · exact absurd rfl short
  · exact month _ moment.valid.month_lt
  · have one := moment.valid.1
    have most := moment.valid.day_le
    have found := day (moment.date.day - 1) (by omega)
    rwa [Nat.sub_add_cancel one] at found
  · exact hour _ (by simp only [Datetime.part]; omega)
  · exact minute _ (by simp only [Datetime.part]; omega)
  · exact second _ (by simp only [Datetime.part]; omega)

/-- A directive takes the field that it writes. -/
theorem first_directive (moment : Datetime) {c : Char} (known : c ∈ directives) :
    First (directive c) ⟨before, padded (digitsOf c) (moment.part c) ++ rest, groups⟩
      ⟨(padded (digitsOf c) (moment.part c)).reverse ++ before, rest,
        Function.update groups (groupOf c)
          (some ⟨before, padded (digitsOf c) (moment.part c)⟩)⟩ := by
  have pairs : c ≠ 'Y' → ∀ others ≠ [], directive c = .group (groupOf c)
      (oneOf ((pairsOf c).map (fun p => .seq (.char p.1) (.char p.2)) ++ others)) →
      First (directive c) ⟨before, padded 2 (moment.part c) ++ rest, groups⟩
        ⟨(padded 2 (moment.part c)).reverse ++ before, rest,
          Function.update groups (groupOf c) (some ⟨before, padded 2 (moment.part c)⟩)⟩ := by
    intro short others some same
    rw [same, padded_two]
    exact First.group_word (groupOf c) (first_oneOf_pairs some (isPair_part moment known short))
  simp only [directives, List.mem_cons, List.not_mem_nil, or_false] at known
  rcases known with rfl | rfl | rfl | rfl | rfl | rfl
  · exact First.group_word 1 (first_times_char (Decimal.length_padded _ _)
      fun d member => isDecimal_of_isDigit (Decimal.isDigit_of_mem_padded member))
  · exact pairs (by decide) [_] (List.cons_ne_nil _ _) rfl
  · exact pairs (by decide) [_, _] (List.cons_ne_nil _ _) rfl
  · exact pairs (by decide) [_] (List.cons_ne_nil _ _) rfl
  · exact pairs (by decide) [_] (List.cons_ne_nil _ _) rfl
  · exact pairs (by decide) [_] (List.cons_ne_nil _ _) rfl

/-- A separator is taken as it stands, one blank where a field follows. -/
theorem first_separator {c : Char} (separator : c ∈ separators)
    (stops : c = ' ' → ∀ d ∈ rest.head?, isSpace d = false) :
    First (if isSpace c then Pattern.plus (.char isSpace) else .litI c) ⟨before, c :: rest, groups⟩
      ⟨c :: before, rest, groups⟩ := by
  by_cases blank : c = ' '
  · subst blank
    exact @first_atLeast_char isSpace before [' '] rest groups 1 le_rfl (by decide) (stops rfl)
  · have marks : ∀ d ∈ separators, d ≠ ' ' → isSpace d = false := by decide
    rw [marks c separator blank]
    exact first_char (decide_eq_true rfl)

theorem isSpace_of_isDigit' {c : Char} (isDigit : c.isDigit = true) : isSpace c = false := by
  have range := Decimal.toNat_of_isDigit isDigit
  simp only [isSpace, decide_eq_false_iff_not]
  omega

theorem head_padded {c : Char} (n : ℕ) : ∃ d later, padded (digitsOf c) n = d :: later ∧
    d.isDigit = true := by
  have digits : ∀ d ∈ padded (digitsOf c) n, d.isDigit = true :=
    fun d => Decimal.isDigit_of_mem_padded
  cases text : padded (digitsOf c) n with
  | nil =>
      have length := Decimal.length_padded (digitsOf c) n
      rw [text, List.length_nil] at length
      unfold digitsOf at length
      split at length <;> omega
  | cons d later => exact ⟨d, later, rfl, digits d (text ▸ List.mem_cons_self)⟩

/-- What is captured after a format is matched: the fields that it uses, and nothing else. -/
def Captured (moment : Datetime) (format : List Char) (groups : ℕ → Option Capture)
    (final : Cursor) : Prop :=
  ∀ c ∈ directives,
    (uses format c = true → ∃ before,
      final.groups (groupOf c) = some ⟨before, padded (digitsOf c) (moment.part c)⟩) ∧
    (uses format c = false → final.groups (groupOf c) = groups (groupOf c))

theorem groupOf_injective {c d : Char} (known : c ∈ directives) (known' : d ∈ directives)
    (same : groupOf c = groupOf d) : c = d := by
  have all : ∀ c ∈ directives, ∀ d ∈ directives, groupOf c = groupOf d → c = d := by decide
  exact all c known d known' same

/-- A format takes what it writes. -/
theorem first_written (moment : Datetime) {format : List Char}
    (isReadable : readable format = true) : ∀ before groups,
    ∃ final, First (formatPattern format) ⟨before, moment.written format ++ rest, groups⟩ final ∧
      final.rest = rest ∧ Captured moment format groups final := by
  refine readable_induction ?_ ?_ ?_ ?_ format isReadable
  · intro before groups
    exact ⟨_, first_empty _, rfl, fun c _ =>
      ⟨fun used => absurd used Bool.false_ne_true, fun _ => rfl⟩⟩
  · intro c later known ih before groups
    obtain ⟨final, found, stopped, captured⟩ := ih
      ((padded (digitsOf c) (moment.part c)).reverse ++ before)
      (Function.update groups (groupOf c) (some ⟨before, padded (digitsOf c) (moment.part c)⟩))
    refine ⟨final, ?_, stopped, ?_⟩
    · rw [Datetime.written, List.append_assoc]
      exact First.seq (first_directive moment known) found
    · intro d known'
      obtain ⟨inLater, notLater⟩ := captured d known'
      simp only [uses, Bool.or_eq_true, Bool.or_eq_false_iff, decide_eq_true_eq,
        decide_eq_false_iff_not]
      refine ⟨?_, ?_⟩
      · intro used
        cases inRest : uses later d with
        | true => exact inLater inRest
        | false =>
            rw [inRest, Bool.false_eq_true, or_false] at used
            subst used
            exact ⟨before, by rw [notLater inRest, Function.update_self]⟩
      · rintro ⟨other, unused⟩
        rw [notLater unused, Function.update_of_ne]
        exact fun same => other (groupOf_injective known known' same.symm)
  · intro c later separator notBlank ih before groups
    have mark := ne_percent_of_separator separator
    obtain ⟨final, found, stopped, captured⟩ := ih (c :: before) groups
    refine ⟨final, ?_, stopped, ?_⟩
    · rw [formatPattern_cons mark, written_cons moment mark, List.cons_append]
      exact First.seq (first_separator separator fun blank => absurd blank notBlank) found
    · rw [Captured, uses_cons mark]
      exact captured
  · intro c later known ih before groups
    obtain ⟨final, found, stopped, captured⟩ := ih (' ' :: before) groups
    refine ⟨final, ?_, stopped, ?_⟩
    · rw [formatPattern_cons (by decide), written_cons moment (by decide), List.cons_append]
      refine First.seq (first_separator (by decide) fun _ d first => ?_) found
      obtain ⟨e, others, digits, isDigit⟩ := @head_padded c (moment.part c)
      rw [Datetime.written, digits, List.append_assoc, List.cons_append] at first
      obtain rfl := Option.some.inj first
      exact isSpace_of_isDigit' isDigit
    · rw [Captured, uses_cons (by decide)]
      exact captured

/-- The seconds since midnight that a format keeps. -/
def keptSeconds (format : List Char) (seconds : ℕ) : ℕ :=
  ((if uses format 'H' then seconds / 3600 else 0) * 60 +
    (if uses format 'M' then seconds / 60 % 60 else 0)) * 60 +
      (if uses format 'S' then seconds % 60 else 0)

/-- A datetime to the precision of a format, without an offset. -/
def Datetime.cut (moment : Datetime) (format : List Char) : Datetime where
  date := moment.date
  seconds := keptSeconds format moment.seconds
  microsecond := 0
  offset := none
  valid := moment.valid
  year := moment.year
  inDay := by
    have inDay := moment.inDay
    unfold keptSeconds
    split <;> split <;> split <;> omega
  inSecond := by decide
  inOffset _ absent := by cases absent

theorem number_of_captured {moment : Datetime} {format : List Char} {final : Cursor}
    (captured : Captured moment format (fun _ => none) final) {c : Char} (known : c ∈ directives)
    (missing : ℕ) : number final (groupOf c) missing =
      if uses format c then moment.part c else missing := by
  obtain ⟨used, unused⟩ := captured c known
  have fits : moment.part c < 10 ^ digitsOf c := by
    have inDay := moment.inDay
    have month := moment.valid.month_lt
    have day := moment.valid.day_le
    have year := moment.year
    simp only [directives, List.mem_cons, List.not_mem_nil, or_false] at known
    rcases known with rfl | rfl | rfl | rfl | rfl | rfl
    · change moment.date.year.natAbs < 10000
      omega
    · change moment.date.month + 1 < 100
      omega
    · change moment.date.day < 100
      omega
    · change moment.seconds / 3600 < 100
      omega
    · change moment.seconds / 60 % 60 < 100
      omega
    · change moment.seconds % 60 < 100
      omega
  cases inFormat : uses format c with
  | true =>
      obtain ⟨before, group⟩ := used inFormat
      rw [number_padded fits group, if_pos rfl]
  | false =>
      rw [number_missing (unused inFormat), if_neg Bool.false_ne_true]

theorem Datetime.of_cut (moment : Datetime) (format : List Char) :
    Datetime.of (moment.part 'Y') (moment.part 'm') (moment.part 'd')
      (if uses format 'H' then moment.part 'H' else 0)
      (if uses format 'M' then moment.part 'M' else 0)
      (if uses format 'S' then moment.part 'S' else 0) 0 none = some (moment.cut format) := by
  have inDay := moment.inDay
  have kept : keptSeconds format moment.seconds / 3600 =
      (if uses format 'H' then moment.seconds / 3600 else 0) ∧
      keptSeconds format moment.seconds / 60 % 60 =
        (if uses format 'M' then moment.seconds / 60 % 60 else 0) ∧
      keptSeconds format moment.seconds % 60 =
        if uses format 'S' then moment.seconds % 60 else 0 := by
    unfold keptSeconds
    split <;> split <;> split <;> omega
  have whole := (moment.cut format).of_parts
  simp only [Datetime.cut, kept.1, kept.2.1, kept.2.2] at whole
  exact whole

/-- A format with a whole date reads what it writes, to its own precision. -/
theorem strptime_written (moment : Datetime) {format : List Char}
    (isReadable : readable format = true)
    (dated : ∀ c ∈ ['Y', 'm', 'd'], uses format c = true) :
    strptime (moment.written format) format = some (moment.cut format) := by
  obtain ⟨final, found, stopped, captured⟩ :=
    @first_written [] moment format isReadable [] fun _ => none
  rw [List.append_nil] at found
  have parts := @number_of_captured moment format final captured
  have year := @parts 'Y' (by decide) 1900
  have month := @parts 'm' (by decide) 1
  have day := @parts 'd' (by decide) 1
  have hour := @parts 'H' (by decide) 0
  have minute := @parts 'M' (by decide) 0
  have second := @parts 'S' (by decide) 0
  rw [dated 'Y' (by decide), if_pos rfl] at year
  rw [dated 'm' (by decide), if_pos rfl] at month
  rw [dated 'd' (by decide), if_pos rfl] at day
  simp only [groupOf] at year month day hour minute second
  have head : ((formatPattern format).run (.start [] (moment.written format))).head? =
      some final := found
  simp only [strptime, head, stopped, Option.bind_eq_bind, Option.bind_some, guard_true, year,
    month, day, hour, minute, second]
  exact moment.of_cut format

end Reading

/-! ## Marks -/

/-- A character that no field and no blank takes, without regard to case. -/
def mark (c : Char) : Option Char := if isDecimal c || isSpace c then none else some c.toLower

def marksOf (text : List Char) : List Char := text.filterMap mark

def formatMarks : List Char → List Char
  | '%' :: _ :: rest => formatMarks rest
  | c :: rest => (mark c).toList ++ formatMarks rest
  | [] => []

section Marks

variable {c : Char} {text rest format : List Char} {cursor final : Cursor}

theorem formatMarks_cons (other : c ≠ '%') :
    formatMarks (c :: rest) = (mark c).toList ++ formatMarks rest := by
  rw [formatMarks]
  exact fun _ _ same _ => other same

theorem marksOf_append (front back : List Char) :
    marksOf (front ++ back) = marksOf front ++ marksOf back := List.filterMap_append

theorem marksOf_eq_nil (plain : ∀ c ∈ text, (isDecimal c || isSpace c) = true) :
    marksOf text = [] := List.filterMap_eq_nil_iff.mpr fun c member => if_pos (plain c member)

/-- Only capital letters are folded. -/
theorem toLower_of_plain (plain : (isDecimal c || isSpace c) = true) : c.toLower = c := by
  have apart : ∀ first ∈ zeros, first + 10 ≤ 65 ∨ 90 < first := by decide
  have outside : ¬ (65 ≤ c.toNat ∧ c.toNat ≤ 90) := by
    rcases Bool.or_eq_true_iff.mp plain with digit | space
    · rw [isDecimal, decimal, Option.isSome_map] at digit
      obtain ⟨first, found⟩ := Option.isSome_iff_exists.mp digit
      have range := List.find?_some found
      rw [decide_eq_true_eq] at range
      rcases apart first (List.mem_of_find?_eq_some found) with below | above <;> omega
    · simp only [isSpace, decide_eq_true_eq] at space
      omega
  exact dif_neg outside

/-- A character that folds to a separator is a mark. -/
theorem mark_of_toLower {d : Char} (separator : c ∈ separators) (notBlank : c ≠ ' ')
    (same : d.toLower = c.toLower) : mark d = some c.toLower := by
  have isMark : ∀ e ∈ separators, e ≠ ' ' →
      (isDecimal e.toLower || isSpace e.toLower) = false := by decide
  have kept : (isDecimal d || isSpace d) = false := by
    rw [← Bool.not_eq_true]
    intro plain
    rw [← toLower_of_plain plain, same, isMark c separator notBlank] at plain
    cases plain
  rw [mark, kept, if_neg Bool.false_ne_true, same]

/-- What a pattern of digits and blanks passes has no marks. -/
theorem marksOf_of_over {pattern : Pattern}
    (within : pattern.Over fun c => (isDecimal c || isSpace c) = true)
    (member : final ∈ pattern.run cursor) :
    ∃ word, cursor.rest = word ++ final.rest ∧ marksOf word = [] := by
  obtain ⟨word, split, -, plain⟩ := run_passes pattern within member
  exact ⟨word, split, marksOf_eq_nil plain⟩

theorem over_digits {accepts : Char → Bool}
    (digits : ∀ c, accepts c = true → '0' ≤ c ∧ c ≤ '9') :
    (Pattern.char accepts).Over fun c => (isDecimal c || isSpace c) = true := by
  intro c accepted
  obtain ⟨low, high⟩ := digits c accepted
  have digit : c.isDigit = true := by
    rw [Char.isDigit, Bool.and_eq_true, decide_eq_true_eq, decide_eq_true_eq]
    exact ⟨low, high⟩
  rw [isDecimal_of_isDigit digit, Bool.true_or]

theorem over_range {low high : Char} (least : '0' ≤ low) (most : high ≤ '9') :
    (range low high).Over fun c => (isDecimal c || isSpace c) = true := by
  refine over_digits fun c accepted => ?_
  obtain ⟨above, below⟩ := of_decide_eq_true accepted
  exact ⟨Char.le_trans least above, Char.le_trans below most⟩

theorem over_lit (digit : (isDecimal c || isSpace c) = true) :
    (lit c).Over fun c => (isDecimal c || isSpace c) = true := by
  intro d accepted
  rw [of_decide_eq_true accepted]
  exact digit

theorem over_anyDigit : anyDigit.Over fun c => (isDecimal c || isSpace c) = true := by
  intro c accepted
  rw [accepted, Bool.true_or]

/-- A directive takes digits, and a blank at most. -/
theorem over_directive (known : c ∈ directives) :
    (directive c).Over fun c => (isDecimal c || isSpace c) = true := by
  have zero := over_lit (by decide : (isDecimal '0' || isSpace '0') = true)
  have one := over_lit (by decide : (isDecimal '1' || isSpace '1') = true)
  have two := over_lit (by decide : (isDecimal '2' || isSpace '2') = true)
  have three := over_lit (by decide : (isDecimal '3' || isSpace '3') = true)
  have six := over_lit (by decide : (isDecimal '6' || isSpace '6') = true)
  have blank := over_lit (by decide : (isDecimal ' ' || isSpace ' ') = true)
  have any := over_anyDigit
  have upTo1 := over_range (Char.le_refl '0') (by decide : '1' ≤ '9')
  have upTo2 := over_range (Char.le_refl '0') (by decide : '2' ≤ '9')
  have upTo3 := over_range (Char.le_refl '0') (by decide : '3' ≤ '9')
  have upTo5 := over_range (Char.le_refl '0') (by decide : '5' ≤ '9')
  have from1 := over_range (by decide : '0' ≤ '1') (Char.le_refl '9')
  have ones := over_range (by decide : '0' ≤ '1') (by decide : '2' ≤ '9')
  simp only [directives, List.mem_cons, List.not_mem_nil, or_false] at known
  rcases known with rfl | rfl | rfl | rfl | rfl | rfl
  · exact ⟨any, any, any, any, trivial⟩
  · exact ⟨⟨one, upTo2⟩, ⟨zero, from1⟩, from1⟩
  · exact ⟨⟨three, upTo1⟩, ⟨ones, any⟩, ⟨zero, from1⟩, from1, blank, from1⟩
  · exact ⟨⟨two, upTo3⟩, ⟨upTo1, any⟩, any⟩
  · exact ⟨⟨upTo5, any⟩, any⟩
  · exact ⟨⟨six, upTo1⟩, ⟨upTo5, any⟩, any⟩

/-- What a format takes has the marks of the format. -/
theorem marksOf_of_mem_run (isReadable : readable format = true) : ∀ cursor final,
    final ∈ (formatPattern format).run cursor →
      ∃ word, cursor.rest = word ++ final.rest ∧ marksOf word = formatMarks format := by
  have joined : ∀ {first second : Pattern} {marks marks' : List Char},
      (∀ cursor final, final ∈ first.run cursor →
        ∃ word, cursor.rest = word ++ final.rest ∧ marksOf word = marks) →
      (∀ cursor final, final ∈ second.run cursor →
        ∃ word, cursor.rest = word ++ final.rest ∧ marksOf word = marks') →
      ∀ cursor final, final ∈ (Pattern.seq first second).run cursor →
        ∃ word, cursor.rest = word ++ final.rest ∧ marksOf word = marks ++ marks' := by
    intro first second marks marks' front back cursor final member
    obtain ⟨middle, reached, later⟩ := mem_run_seq.mp member
    obtain ⟨word, split, found⟩ := front cursor middle reached
    obtain ⟨word', split', found'⟩ := back middle final later
    exact ⟨word ++ word', by rw [split, split', List.append_assoc],
      by rw [marksOf_append, found, found']⟩
  refine readable_induction ?_ ?_ ?_ ?_ format isReadable
  · intro cursor final member
    rw [List.mem_singleton.mp member]
    exact ⟨[], rfl, rfl⟩
  · intro c later known ih
    exact joined (fun _ _ => marksOf_of_over (over_directive known)) ih
  · intro c later separator notBlank ih
    have marks : ∀ d ∈ separators, d ≠ ' ' → isSpace d = false := by decide
    have mark' := mark_of_toLower separator notBlank rfl
    rw [formatPattern_cons (ne_percent_of_separator separator),
      formatMarks_cons (ne_percent_of_separator separator), mark', marks c separator notBlank,
      if_neg Bool.false_ne_true]
    refine joined ?_ ih
    intro cursor final member
    obtain ⟨word, ⟨d, accepted, rfl⟩, split, -⟩ := takes_of_mem_run (.litI c) trivial member
    have folded := mark_of_toLower separator notBlank (of_decide_eq_true accepted)
    exact ⟨[d], split, by rw [marksOf, List.filterMap_cons_some folded]; rfl⟩
  · intro c later known ih
    rw [formatPattern_cons (by decide), formatMarks_cons (by decide)]
    have spaces : (Pattern.plus (.char isSpace)).Over
        fun c => (isDecimal c || isSpace c) = true := by
      have space : (Pattern.char isSpace).Over fun c => (isDecimal c || isSpace c) = true := by
        intro c accepted
        rw [accepted, Bool.or_true]
      exact ⟨⟨space, trivial⟩, space⟩
    exact joined (fun _ _ => marksOf_of_over spaces) ih

/-- What a format writes has the marks of the format. -/
theorem marksOf_written (moment : Datetime) (isReadable : readable format = true) :
    marksOf (moment.written format) = formatMarks format := by
  obtain ⟨final, found, stopped, -⟩ :=
    @first_written [] moment format isReadable [] fun _ => none
  obtain ⟨others, member⟩ := List.head?_eq_some_iff.mp found
  obtain ⟨word, split, marks⟩ := marksOf_of_mem_run isReadable _ final
    (member ▸ List.mem_cons_self)
  rw [stopped] at split
  rw [← marks, ← List.append_cancel_right split]

/-- A text with other marks is not read. -/
theorem strptime_eq_none_of_marks (isReadable : readable format = true)
    (other : marksOf text ≠ formatMarks format) : strptime text format = none := by
  unfold strptime
  cases found : ((formatPattern format).run (.start [] text)).head? with
  | none => rfl
  | some m =>
      obtain ⟨others, member⟩ := List.head?_eq_some_iff.mp found
      obtain ⟨word, split, marks⟩ := marksOf_of_mem_run isReadable _ m
        (member ▸ List.mem_cons_self)
      have unfinished : m.rest ≠ [] := by
        intro stopped
        rw [stopped, List.append_nil] at split
        exact other ((congrArg marksOf split).trans marks)
      simp only [Option.bind_eq_bind, Option.bind_some, unfinished, guard_false]
      rfl

/-- A number of characters of a class is not found where another character comes too early. -/
theorem run_times_eq_nil {accepts : Char → Bool} {count : ℕ} {front : List Char} {d : Char}
    (short : front.length < count) (rejected : accepts d = false) :
    (times count (.char accepts)).run (.start [] (front ++ d :: rest)) = [] := by
  refine List.eq_nil_iff_forall_not_mem.mpr fun final member => ?_
  have plain : (Pattern.char accepts).Plain := trivial
  obtain ⟨word, taken, split, -⟩ := takes_of_mem_run _ (plain.times count) member
  obtain ⟨length, all⟩ := matches_times_char.mp taken
  have whole : front ++ d :: rest = word ++ final.rest := split
  have found : (front ++ d :: rest)[front.length]? = some d := by simp
  rw [whole, List.getElem?_append_left (length ▸ short)] at found
  rw [all d (List.mem_of_getElem? found)] at rejected
  cases rejected

/-- A year in four digits is not found where one of the first four characters is no digit. -/
theorem strptime_year_eq_none {front : List Char} {d : Char} (short : front.length < 4)
    (noDigit : isDecimal d = false) :
    strptime (front ++ d :: rest) ('%' :: 'Y' :: format) = none := by
  have fails :
      (formatPattern ('%' :: 'Y' :: format)).run (.start [] (front ++ d :: rest)) = [] := by
    refine run_seq_eq_nil_left ?_
    have none : (times 4 anyDigit).run (.start [] (front ++ d :: rest)) = [] :=
      run_times_eq_nil short noDigit
    rw [directive, run_group, none, List.map_nil]
  rw [strptime, fails]
  rfl

end Marks

/-! ## Written texts -/

section Texts

variable {format : List Char}

theorem mem_written (moment : Datetime) (isReadable : readable format = true) :
    ∀ c ∈ moment.written format, c.isDigit = true ∨ c ∈ separators := by
  refine readable_induction ?_ ?_ ?_ ?_ format isReadable
  · exact fun _ member => absurd member List.not_mem_nil
  · intro c later known ih d member
    rcases List.mem_append.mp member with inField | inLater
    · exact Or.inl (Decimal.isDigit_of_mem_padded inField)
    · exact ih d inLater
  · intro c later separator notBlank ih d member
    rw [written_cons moment (ne_percent_of_separator separator), List.mem_cons] at member
    rcases member with rfl | inLater
    · exact Or.inr separator
    · exact ih d inLater
  · intro c later known ih d member
    rw [written_cons moment (by decide), List.mem_cons] at member
    rcases member with rfl | inLater
    · exact Or.inr (by decide)
    · exact ih d inLater

theorem written_ne_nil (moment : Datetime) {c : Char} {later : List Char} :
    moment.written ('%' :: c :: later) ≠ [] := by
  obtain ⟨d, others, digits, -⟩ := @head_padded c (moment.part c)
  rw [Datetime.written, digits, List.cons_append]
  exact List.cons_ne_nil _ _

theorem exists_field (isReadable : readable format = true) (field : format.head? = some '%') :
    ∃ c later, format = '%' :: c :: later := by
  cases format with
  | nil => cases field
  | cons p later =>
      obtain rfl := Option.some.inj field
      cases later with
      | nil => cases isReadable
      | cons c later => exact ⟨c, later, rfl⟩

/-- What a format writes that starts with a field has no white space at its ends. -/
theorem written_stripped (moment : Datetime) (isReadable : readable format = true)
    (field : format.head? = some '%') : Stripped (moment.written format) := by
  have back : ∀ c ∈ (moment.written format).getLast?, isSpace c = false := by
    have separate : ∀ c ∈ separators, c ≠ ' ' → isSpace c = false := by decide
    have append : ∀ {front later : List Char}, (∀ c ∈ front.getLast?, isSpace c = false) →
        (∀ c ∈ later.getLast?, isSpace c = false) →
        ∀ c ∈ (front ++ later).getLast?, isSpace c = false := by
      intro front later inFront inLater c last
      rw [List.getLast?_append] at last
      rcases Option.or_eq_some_iff.mp last with found | ⟨-, found⟩
      · exact inLater c found
      · exact inFront c found
    refine readable_induction ?_ ?_ ?_ ?_ format isReadable
    · exact fun _ absent => by cases absent
    · intro c later known ih
      refine append (fun d last => ?_) ih
      exact isSpace_of_isDigit' (Decimal.isDigit_of_mem_padded (List.mem_of_getLast? last))
    · intro c later separator notBlank ih
      rw [written_cons moment (ne_percent_of_separator separator)]
      refine @append [c] _ (fun d last => ?_) ih
      obtain rfl := Option.some.inj last
      exact separate c separator notBlank
    · intro c later known ih d last
      rw [written_cons moment (by decide), List.getLast?_cons,
        List.getLast?_eq_some_getLast (written_ne_nil moment)] at last
      exact ih d ((List.getLast?_eq_some_getLast (written_ne_nil moment)).trans last)
  refine ⟨?_, back⟩
  obtain ⟨c, later, rfl⟩ := exists_field isReadable field
  obtain ⟨d, others, digits, isDigit⟩ := @head_padded c (moment.part c)
  intro e first
  rw [Datetime.written, digits, List.cons_append] at first
  obtain rfl := Option.some.inj first
  exact isSpace_of_isDigit' isDigit

end Texts

/-! ## ISO texts without seconds -/

section IsoTexts

variable {front rest : List Char} {d : Char}

theorem fromisoformat_eq_none (fails : isoPattern.run (.start [] rest) = []) :
    fromisoformat rest = none := by
  rw [fromisoformat, fullmatch, fails]
  rfl

/-- An ISO text starts with four digits. -/
theorem fromisoformat_of_early (short : front.length < 4) (noDigit : d.isDigit = false) :
    fromisoformat (front ++ d :: rest) = none := by
  have none : (times 4 digit).run (.start [] (front ++ d :: rest)) = [] :=
    run_times_eq_nil short noDigit
  refine fromisoformat_eq_none (run_seq_eq_nil_left ?_)
  rw [field, run_group, none, List.map_nil]

/-- A minus sign comes next. -/
theorem fromisoformat_of_mark (length : front.length = 4) (other : d ≠ '-') :
    fromisoformat (front ++ d :: rest) = none := by
  refine fromisoformat_eq_none (run_seq_eq_nil fun middle reached => run_lit_eq_nil ?_)
  rw [field, run_group] at reached
  obtain ⟨next, member, rfl⟩ := List.mem_map.mp reached
  obtain ⟨word, split, width⟩ := mem_run_times_char member
  have same : d :: rest = next.rest :=
    (List.append_inj (show front ++ d :: rest = word ++ next.rest from split)
      (length.trans width.symm)).2
  intro e first
  change e ∈ next.rest.head? at first
  rw [← same] at first
  obtain rfl := Option.some.inj first
  exact other

/-- An ISO text whose fields are those of a format. -/
theorem fromisoformat_of_captured {moment : Datetime} {format text : List Char} {final : Cursor}
    (matched : isoPattern.fullmatch text = some final)
    (captured : Captured moment format (fun _ => none) final)
    (dated : ∀ c ∈ ['Y', 'm', 'd'], uses format c = true)
    (plain : final.groups 7 = none ∧ final.groups 8 = none) :
    fromisoformat text = some (moment.cut format) := by
  have parts := @number_of_captured moment format final captured
  have year := @parts 'Y' (by decide) 0
  have month := @parts 'm' (by decide) 0
  have day := @parts 'd' (by decide) 0
  have hour := @parts 'H' (by decide) 0
  have minute := @parts 'M' (by decide) 0
  have second := @parts 'S' (by decide) 0
  rw [dated 'Y' (by decide), if_pos rfl] at year
  rw [dated 'm' (by decide), if_pos rfl] at month
  rw [dated 'd' (by decide), if_pos rfl] at day
  simp only [groupOf] at year month day hour minute second
  have noFraction : microseconds final = 0 := by
    rw [microseconds, Cursor.text, plain.1, number_missing plain.1]
    rfl
  have noOffset : offset final = none := by
    rw [offset, Cursor.text, plain.2]
    rfl
  simp only [fromisoformat, matched, Option.bind_eq_bind, Option.bind_some, noFraction, noOffset,
    year, month, day, hour, minute, second]
  exact moment.of_cut format

/-- A date alone is midnight of that date. -/
theorem fromisoformat_date (moment : Datetime) :
    fromisoformat (moment.written "%Y-%m-%d".toList) =
      some (moment.cut "%Y-%m-%d".toList) := by
  obtain ⟨before, groups, year, month, day, unset, continues⟩ :=
    @first_isoDate [] (moment.part 'Y') (moment.part 'm') (moment.part 'd')
  have ends : First (.opt (.seq (.char fun _ => true) (.seq isoClock (.opt isoOffset))))
      ⟨before, [], groups⟩ ⟨before, [], groups⟩ :=
    first_opt_of_nil (run_seq_eq_nil_left (run_char_eq_nil (by simp)))
  refine fromisoformat_of_captured (fullmatch_of_first (continues _ _ ends) rfl) ?_ (by decide)
    ⟨unset 7 (by decide), unset 8 (by decide)⟩
  intro c known
  simp only [directives, List.mem_cons, List.not_mem_nil, or_false] at known
  rcases known with rfl | rfl | rfl | rfl | rfl | rfl
  · exact ⟨fun _ => year, fun unused => absurd unused (by decide)⟩
  · exact ⟨fun _ => month, fun unused => absurd unused (by decide)⟩
  · exact ⟨fun _ => day, fun unused => absurd unused (by decide)⟩
  · exact ⟨fun used => absurd used (by decide), fun _ => unset 4 (by decide)⟩
  · exact ⟨fun used => absurd used (by decide), fun _ => unset 5 (by decide)⟩
  · exact ⟨fun used => absurd used (by decide), fun _ => unset 6 (by decide)⟩

/-- A time of day may do without seconds. -/
theorem fromisoformat_minutes (moment : Datetime) :
    fromisoformat (moment.written "%Y-%m-%d %H:%M".toList) =
      some (moment.cut "%Y-%m-%d %H:%M".toList) := by
  obtain ⟨before, groups, year, month, day, unset, continues⟩ :=
    @first_isoDate
      (' ' :: (padded 2 (moment.part 'H') ++ ':' :: (padded 2 (moment.part 'M') ++ [])))
      (moment.part 'Y') (moment.part 'm') (moment.part 'd')
  have stops : ∀ {before : List Char} {groups : ℕ → Option Capture} {c : Char} {after : Pattern},
      First (.opt (.seq (.lit c) after)) ⟨before, [], groups⟩ ⟨before, [], groups⟩ :=
    fun {_ _ _ _} => first_opt_of_nil (run_lit_eq_nil (by simp))
  have noOffset : ∀ {before : List Char} {groups : ℕ → Option Capture},
      First (.opt isoOffset) ⟨before, [], groups⟩ ⟨before, [], groups⟩ := by
    intro before groups
    refine first_opt_of_nil (run_seq_eq_nil_left ?_)
    rw [run_group, run_char_eq_nil (by simp), List.map_nil]
  have clock : First isoClock ⟨' ' :: before, padded 2 (moment.part 'H') ++
      ':' :: (padded 2 (moment.part 'M') ++ []), groups⟩ _ :=
    First.seq (first_field 2 4 _) (First.opt (First.seq (first_char (decide_eq_true rfl))
      (First.seq (first_field 2 5 _) stops)))
  have matched := continues (.opt (.seq (.char fun _ => true) (.seq isoClock (.opt isoOffset)))) _
    (First.opt (First.seq (first_char rfl) (First.seq clock noOffset)))
  refine fromisoformat_of_captured (fullmatch_of_first matched rfl) ?_ (by decide) ⟨?_, ?_⟩
  · intro c known
    simp only [directives, List.mem_cons, List.not_mem_nil, or_false] at known
    rcases known with rfl | rfl | rfl | rfl | rfl | rfl
    · exact ⟨fun _ => year, fun unused => absurd unused (by decide)⟩
    · exact ⟨fun _ => month, fun unused => absurd unused (by decide)⟩
    · exact ⟨fun _ => day, fun unused => absurd unused (by decide)⟩
    · exact ⟨fun _ => ⟨_, rfl⟩, fun unused => absurd unused (by decide)⟩
    · exact ⟨fun _ => ⟨_, rfl⟩, fun unused => absurd unused (by decide)⟩
    · exact ⟨fun used => absurd used (by decide), fun _ => unset 6 (by decide)⟩
  · exact unset 7 (by decide)
  · exact unset 8 (by decide)

end IsoTexts

end BirrTrack.Python
