import BirrTrack.Python.Json

/-! # JSON texts

The texts that `json.loads` decodes, as a grammar: that of JSON, with the words `NaN` and
`Infinity`. The decoder reads no others (`scanOnce_reads`), and all of these (`scanOnce_scans`),
unless a number has too many digits or the nesting is too deep.
-/

namespace BirrTrack.Python

open Radix (hexDigit)

namespace Json

/-! ## The grammar -/

def Blank (text : List Char) : Prop := ∀ c ∈ text, isBlank c = true

def Digits (text : List Char) : Prop := text ≠ [] ∧ ∀ c ∈ text, c.isDigit = true

/-- What stands between the quotes of a string. -/
inductive StringBody : List Char → Prop where
  | nil : StringBody []
  | plain {c : Char} {rest : List Char} (notQuote : c ≠ '"') (notEscape : c ≠ '\\')
      (printed : 32 ≤ c.toNat) (body : StringBody rest) : StringBody (c :: rest)
  | escape {c : Char} {rest : List Char} (known : c ∈ ['"', '\\', '/', 'b', 'f', 'n', 'r', 't'])
      (body : StringBody rest) : StringBody ('\\' :: c :: rest)
  | unicode {a b c d : Char} {rest : List Char}
      (hex : ∀ digit ∈ [a, b, c, d], (hexDigit digit).isSome) (body : StringBody rest) :
      StringBody ('\\' :: 'u' :: a :: b :: c :: d :: rest)

def IsString (text : List Char) : Prop := ∃ body, text = '"' :: (body ++ ['"']) ∧ StringBody body

def IsWord (text : List Char) : Prop := ∃ word ∈ words, text = word.1.toList

/-- The digits before the point, without leading zeros. -/
def IsWhole (text : List Char) : Prop := text = ['0'] ∨ Digits text ∧ text.head? ≠ some '0'

def IsFraction (text : List Char) : Prop :=
  text = [] ∨ ∃ digits, text = '.' :: digits ∧ Digits digits

def IsExponent (text : List Char) : Prop :=
  text = [] ∨ ∃ mark ∈ ['e', 'E'], ∃ sign ∈ [[], ['-'], ['+']], ∃ digits,
    text = mark :: (sign ++ digits) ∧ Digits digits

def IsUnsigned (text : List Char) : Prop :=
  ∃ whole fraction exponent, text = whole ++ (fraction ++ exponent) ∧ IsWhole whole ∧
    IsFraction fraction ∧ IsExponent exponent

def IsNumber (text : List Char) : Prop :=
  IsUnsigned text ∨ ∃ unsigned, text = '-' :: unsigned ∧ IsUnsigned unsigned

/-- Items with commas between them, up to the closing bracket. -/
inductive Items (one : List Char → Prop) (closing : Char) : List Char → Prop where
  | last {item blank : List Char} (written : one item) (blanks : Blank blank) :
      Items one closing (item ++ (blank ++ [closing]))
  | more {item blank blank' rest : List Char} (written : one item) (blanks : Blank blank)
      (blanks' : Blank blank') (others : Items one closing rest) :
      Items one closing (item ++ (blank ++ ',' :: (blank' ++ rest)))

/-- What follows an opening bracket. -/
inductive Bracket (one : List Char → Prop) (closing : Char) : List Char → Prop where
  | empty {blank : List Char} (blanks : Blank blank) : Bracket one closing (blank ++ [closing])
  | items {blank text : List Char} (blanks : Blank blank) (written : Items one closing text) :
      Bracket one closing (blank ++ text)

def IsMember (value : List Char → Prop) (text : List Char) : Prop :=
  ∃ key blank blank' written, text = key ++ (blank ++ ':' :: (blank' ++ written)) ∧ IsString key ∧
    Blank blank ∧ Blank blank' ∧ value written

/-- The texts of values that are nested no deeper than a bound. -/
def IsValue : ℕ → List Char → Prop
  | 0, _ => False
  | depth + 1, text =>
      IsString text ∨ IsWord text ∨ IsNumber text ∨
        (∃ inside, text = '[' :: inside ∧ Bracket (IsValue depth) ']' inside) ∨
        ∃ inside, text = '{' :: inside ∧ Bracket (IsMember (IsValue depth)) '}' inside

/-- The texts of objects. -/
def IsObject (text : List Char) : Prop :=
  ∃ depth inside, text = '{' :: inside ∧ Bracket (IsMember (IsValue depth)) '}' inside

/-- The characters of words and numbers. -/
def isPlain (c : Char) : Bool := c.isAlphanum || c = '+' || c = '-' || c = '.'

/-- A digit is neither a brace nor a quote. -/
theorem isPlain_of_isDigit {c : Char} (digit : c.isDigit = true) : isPlain c = true := by
  simp [isPlain, Char.isAlphanum, digit]

/-- No word of JSON holds a brace or a quote. -/
theorem isPlain_of_isWord {text : List Char} (isWord : IsWord text) :
    ∀ c ∈ text, isPlain c = true := by
  obtain ⟨word, known, rfl⟩ := isWord
  simp only [words, List.mem_cons, List.not_mem_nil, or_false] at known
  rcases known with rfl | rfl | rfl | rfl | rfl | rfl <;> decide

/-- No number without a sign holds a brace or a quote. -/
theorem isPlain_of_isUnsigned {text : List Char} (isUnsigned : IsUnsigned text) :
    ∀ c ∈ text, isPlain c = true := by
  obtain ⟨whole, decimals, power, rfl, isWhole, isFraction, isExponent⟩ := isUnsigned
  have ofDigits : ∀ {digits : List Char}, Digits digits → ∀ c ∈ digits, isPlain c = true :=
    fun written c member => isPlain_of_isDigit (written.2 c member)
  intro c member
  rcases List.mem_append.mp member with inWhole | member
  · rcases isWhole with rfl | ⟨digits, -⟩
    · rw [List.mem_singleton.mp inWhole]
      rfl
    · exact ofDigits digits c inWhole
  rcases List.mem_append.mp member with inFraction | inExponent
  · rcases isFraction with rfl | ⟨digits, rfl, written⟩
    · exact absurd inFraction List.not_mem_nil
    · rcases List.mem_cons.mp inFraction with rfl | inDigits
      · rfl
      · exact ofDigits written c inDigits
  · rcases isExponent with rfl | ⟨mark, marked, sign, signed, digits, rfl, written⟩
    · exact absurd inExponent List.not_mem_nil
    · have plainMark : ∀ mark ∈ ['e', 'E'], isPlain mark = true := by decide
      have plainSign : ∀ sign ∈ [[], ['-'], ['+']], ∀ c ∈ sign, isPlain c = true := by decide
      rcases List.mem_cons.mp inExponent with rfl | member
      · exact plainMark _ marked
      rcases List.mem_append.mp member with inSign | inDigits
      · exact plainSign sign signed c inSign
      · exact ofDigits written c inDigits

/-- No number holds a brace or a quote. -/
theorem isPlain_of_isNumber {text : List Char} (isNumber : IsNumber text) :
    ∀ c ∈ text, isPlain c = true := by
  rcases isNumber with isUnsigned | ⟨unsigned, rfl, isUnsigned⟩
  · exact isPlain_of_isUnsigned isUnsigned
  · intro c member
    rcases List.mem_cons.mp member with rfl | member
    · rfl
    · exact isPlain_of_isUnsigned isUnsigned c member

/-! ## The decoder reads nothing else -/

/-- What a scanner takes is a text of the given kind. -/
def Reads {α : Type} (one : List Char → Except Exception (α × List Char))
    (kind : List Char → Prop) : Prop :=
  ∀ text item rest, one text = .ok (item, rest) → ∃ taken, text = taken ++ rest ∧ kind taken

/-- What `skip` takes off the front of a text is blanks. -/
theorem exists_blank_append (text : List Char) : ∃ blank, text = blank ++ skip text ∧ Blank blank :=
  ⟨text.takeWhile isBlank, (List.takeWhile_append_dropWhile).symm,
    fun _ member => List.mem_takeWhile_imp member⟩

/-- The letters that may follow a backslash, `u` apart, are the eight of the grammar. -/
theorem mem_escapes_of_escaped {c unit : Char} (known : escaped c = some unit) :
    c ∈ ['"', '\\', '/', 'b', 'f', 'n', 'r', 't'] := by
  unfold escaped at known
  split_ifs at known <;> simp only [List.mem_cons] <;> tauto

/-- The text up to the quote where `scanString` stops is the body of a string. -/
theorem stringBody_of_scanString {text rest : List Char} {units : List ℕ}
    (scanned : scanString text = some (units, rest)) :
    ∃ body, text = body ++ '"' :: rest ∧ StringBody body := by
  fun_induction scanString text generalizing units rest with
  | case1 => cases scanned
  | case2 tail =>
      cases scanned
      exact ⟨[], rfl, .nil⟩
  | case3 a b c d tail ih =>
      simp only [Option.bind_eq_bind, Option.bind_eq_some_iff] at scanned
      obtain ⟨_, hexA, _, hexB, _, hexC, _, hexD, ⟨_, _⟩, inner, result⟩ := scanned
      cases result
      obtain ⟨body, rfl, written⟩ := ih inner
      refine ⟨_, rfl, .unicode ?_ written⟩
      simp [hexA, hexB, hexC, hexD]
  | case4 c tail other ih =>
      simp only [Option.bind_eq_bind, Option.bind_eq_some_iff] at scanned
      obtain ⟨_, known, ⟨_, _⟩, inner, result⟩ := scanned
      cases result
      obtain ⟨body, rfl, written⟩ := ih inner
      exact ⟨_, rfl, .escape (mem_escapes_of_escaped known) written⟩
  | case5 c tail notQuote notUnit notEscape ih =>
      simp only [Option.bind_eq_bind, Option.bind_eq_some_iff] at scanned
      obtain ⟨_, plain, ⟨_, _⟩, inner, result⟩ := scanned
      cases result
      obtain ⟨body, rfl, written⟩ := ih inner
      have printed : c ≠ '\\' ∧ 32 ≤ c.toNat := by
        by_contra hidden
        rw [guard, if_neg hidden] at plain
        cases plain
      exact ⟨_, rfl, .plain notQuote printed.1 printed.2 written⟩

/-! ### Numbers -/

/-- A run of digits that is not empty is a word of the grammar's digits. -/
theorem digits_takeWhile {text : List Char} (some : text.takeWhile Char.isDigit ≠ []) :
    Digits (text.takeWhile Char.isDigit) :=
  ⟨some, fun _ member => List.mem_takeWhile_imp member⟩

/-- What `wholeDigits` takes is the whole part of a number: `0`, or no zero in front. -/
theorem exists_wholeDigits {text : List Char} (some : wholeDigits text ≠ []) :
    text = wholeDigits text ++ text.drop (wholeDigits text).length ∧
      IsWhole (wholeDigits text) := by
  unfold wholeDigits at some ⊢
  split
  next zero =>
    cases text with
    | nil => cases zero
    | cons c rest =>
        cases zero
        exact ⟨rfl, Or.inl rfl⟩
  next nonzero =>
    rw [if_neg nonzero] at some
    refine ⟨?_, Or.inr ⟨digits_takeWhile some, ?_⟩⟩
    · conv_lhs => rw [← List.take_append_drop (text.takeWhile Char.isDigit).length text]
      rw [← List.prefix_iff_eq_take.mp (List.takeWhile_prefix _)]
    · intro first
      cases text with
      | nil => exact some rfl
      | cons c rest =>
          rw [List.takeWhile_cons] at first
          split at first
          · exact nonzero first
          · cases first

/-- What `fraction` takes is a fraction of the grammar, or nothing. -/
theorem exists_fraction (text : List Char) :
    ∃ taken, text = taken ++ (fraction text).2 ∧ IsFraction taken := by
  fun_cases fraction text with
  | case1 rest none => exact ⟨[], rfl, Or.inl rfl⟩
  | case2 rest some =>
      refine ⟨'.' :: rest.takeWhile Char.isDigit, ?_, Or.inr ⟨_, rfl, digits_takeWhile some⟩⟩
      rw [List.cons_append, List.takeWhile_append_dropWhile]
  | case3 => exact ⟨[], rfl, Or.inl rfl⟩

/-- What `exponent` takes is an exponent of the grammar, or nothing. -/
theorem exists_exponent (text : List Char) :
    ∃ taken, text = taken ++ (exponent text).2 ∧ IsExponent taken := by
  fun_cases exponent text with
  | case1 => exact ⟨[], rfl, Or.inl rfl⟩
  | case2 mark rest unsigned digits marked =>
      have signed : ∃ sign ∈ [[], ['-'], ['+']], rest = sign ++ unsigned := by
        simp only [unsigned]
        split
        next sign =>
          cases rest with
          | nil => simp at sign
          | cons c rest =>
              refine ⟨[c], ?_, rfl⟩
              simpa using sign
        next => exact ⟨[], by simp, rfl⟩
      obtain ⟨sign, known, rest_eq⟩ := signed
      refine ⟨mark :: (sign ++ digits), ?_, Or.inr ⟨mark, ?_, sign, known, digits, rfl, ?_⟩⟩
      · rw [List.cons_append, List.append_assoc, List.takeWhile_append_dropWhile, ← rest_eq]
      · simpa using marked.1
      · exact digits_takeWhile marked.2
  | case3 => exact ⟨[], rfl, Or.inl rfl⟩

/-- What is taken for a number after its sign is one. -/
theorem scanUnsigned_reads (limits : Limits) (negative : Bool) :
    Reads (scanUnsigned limits negative) IsUnsigned := by
  intro text value rest scanned
  simp only [scanUnsigned] at scanned
  split at scanned
  next => cases scanned
  next some =>
    obtain ⟨split, whole⟩ := exists_wholeDigits some
    obtain ⟨decimals, split', fraction⟩ := exists_fraction (text.drop (wholeDigits text).length)
    obtain ⟨power, split'', exponent⟩ :=
      exists_exponent (Json.fraction (text.drop (wholeDigits text).length)).2
    have taken : ∃ taken, text = taken ++
        (Json.exponent (Json.fraction (text.drop (wholeDigits text).length)).2).2 ∧
          IsUnsigned taken := by
      refine ⟨_, ?_, _, _, _, rfl, whole, fraction, exponent⟩
      rw [List.append_assoc, List.append_assoc, ← split'', ← split', ← split]
    split at scanned
    · split at scanned
      · cases scanned
      · cases scanned
        exact taken
    · cases scanned
      exact taken

/-- Under any limits, the number scanner takes numbers of the grammar only. -/
theorem scanNumber_reads (limits : Limits) : Reads (scanNumber limits) IsNumber := by
  intro text value rest scanned
  rw [scanNumber] at scanned
  split at scanned
  next minus =>
    cases text with
    | nil => cases minus
    | cons c tail =>
        cases minus
        obtain ⟨taken, split, number⟩ := scanUnsigned_reads limits true _ _ _ scanned
        exact ⟨'-' :: taken, congrArg ('-' :: ·) split, Or.inr ⟨taken, rfl, number⟩⟩
  next =>
    obtain ⟨taken, split, number⟩ := scanUnsigned_reads limits false _ _ _ scanned
    exact ⟨taken, split, Or.inl number⟩

/-! ### Values -/

/-- What the decoder takes without opening a bracket is a word or a number. -/
theorem scanScalar_reads (limits : Limits) :
    Reads (scanScalar limits) fun text => IsWord text ∨ IsNumber text := by
  intro text value rest scanned
  unfold scanScalar at scanned
  split at scanned
  next word value found =>
    cases scanned
    have isPrefix := List.find?_some found
    refine ⟨word.toList, ?_, Or.inl ⟨_, List.mem_of_find?_eq_some found, rfl⟩⟩
    conv_lhs => rw [← List.take_append_drop word.length text]
    rw [← String.length_toList,
      ← List.prefix_iff_eq_take.mp (List.isPrefixOf_iff_prefix.mp isPrefix)]
  next =>
    obtain ⟨taken, split, number⟩ := scanNumber_reads limits _ _ _ scanned
    exact ⟨taken, split, Or.inr number⟩

section Items

variable {α : Type} {one : List Char → Except Exception (α × List Char)} {kind : List Char → Prop}

/-- A loop over items takes a row of items with its closing bracket, if the scanner of one item
takes items. -/
theorem scanItems_reads (reads : Reads one kind) (closing : Char) (fuel : ℕ) :
    Reads (scanItems one closing fuel) (Items kind closing) := by
  induction fuel with
  | zero =>
      intro text items rest scanned
      cases scanned
  | succ fuel ih =>
      intro text items rest scanned
      simp only [scanItems, Procedure.bind_eq_ok] at scanned
      obtain ⟨⟨item, after⟩, first, scanned⟩ := scanned
      obtain ⟨taken, rfl, written⟩ := reads _ _ _ first
      obtain ⟨blank, split_eq, blanks⟩ := exists_blank_append after
      split at scanned
      next => cases scanned
      next c tail left =>
        rw [left] at split_eq
        subst split_eq
        split at scanned
        next closed =>
          cases scanned
          exact ⟨_, by simp [closed], .last written blanks⟩
        split at scanned
        next comma =>
          subst comma
          obtain ⟨⟨others, remaining⟩, more, result⟩ := Procedure.bind_eq_ok.mp scanned
          obtain ⟨blank', split_eq', blanks'⟩ := exists_blank_append tail
          obtain ⟨taken', rest_eq, written'⟩ := ih _ _ _ more
          cases result
          refine ⟨_, ?_, .more written blanks blanks' written'⟩
          rw [split_eq', rest_eq]
          simp only [List.append_assoc, List.cons_append]
        next => cases scanned

/-- After the opening bracket the decoder takes an empty pair of brackets or a row of items. -/
theorem scanBracket_reads (reads : Reads one kind) (closing : Char) :
    Reads (scanBracket one closing) (Bracket kind closing) := by
  intro text items rest scanned
  obtain ⟨blank, split_eq, blanks⟩ := exists_blank_append text
  simp only [scanBracket] at scanned
  split at scanned
  next closed =>
    cases scanned
    obtain ⟨tail, left⟩ := List.head?_eq_some_iff.mp closed
    refine ⟨_, ?_, .empty blanks⟩
    rw [left] at split_eq ⊢
    simpa using split_eq
  next =>
    obtain ⟨taken, left, written⟩ := scanItems_reads reads closing _ _ _ _ scanned
    exact ⟨_, by rw [List.append_assoc, ← left, ← split_eq], .items blanks written⟩

end Items

/-- A member of an object is a string, a colon and a value. -/
theorem scanMember_reads {one : List Char → Except Exception (Value × List Char)}
    {kind : List Char → Prop} (reads : Reads one kind) :
    Reads (scanMember one) (IsMember kind) := by
  intro text item rest scanned
  unfold scanMember at scanned
  split at scanned
  next text tail =>
    simp only [Procedure.bind_eq_ok, decoded_eq_ok] at scanned
    obtain ⟨⟨units, after⟩, key, scanned⟩ := scanned
    obtain ⟨body, rfl, string⟩ := stringBody_of_scanString key
    obtain ⟨blank, split_eq, blanks⟩ := exists_blank_append after
    split at scanned
    next colon left =>
      obtain ⟨⟨value, remaining⟩, found, result⟩ := Procedure.bind_eq_ok.mp scanned
      obtain ⟨blank', split_eq', blanks'⟩ := exists_blank_append colon
      obtain ⟨taken, left', written⟩ := reads _ _ _ found
      cases result
      refine ⟨_, ?_, _, _, _, _, rfl, ⟨_, rfl, string⟩, blanks, blanks', written⟩
      rw [split_eq, left, split_eq', left']
      simp only [List.append_assoc, List.cons_append, List.nil_append]
    next => cases scanned
  next => cases scanned

/-- What the decoder takes is the text of a value. -/
theorem scanOnce_reads (limits : Limits) (fuel : ℕ) :
    Reads (scanOnce limits fuel) (IsValue fuel) := by
  induction fuel generalizing limits with
  | zero =>
      intro text value rest scanned
      cases text with
      | nil => cases scanned
      | cons c tail => cases scanned
  | succ fuel ih =>
      intro text value rest scanned
      cases text with
      | nil => cases scanned
      | cons c tail =>
          simp only [scanOnce] at scanned
          split at scanned
          next quote =>
            simp only [Procedure.bind_eq_ok, decoded_eq_ok] at scanned
            obtain ⟨⟨units, after⟩, found, result⟩ := scanned
            cases result
            obtain ⟨body, rfl, string⟩ := stringBody_of_scanString found
            exact ⟨_, by simp [quote], Or.inl ⟨body, rfl, string⟩⟩
          split at scanned
          next opening =>
            split at scanned
            next => cases scanned
            next =>
              obtain ⟨⟨items, after⟩, found, result⟩ := Procedure.bind_eq_ok.mp scanned
              cases result
              obtain ⟨taken, rfl, written⟩ := scanBracket_reads (ih _) ']' _ _ _ found
              exact ⟨'[' :: taken, by rw [opening]; rfl,
                Or.inr (Or.inr (Or.inr (Or.inl ⟨taken, rfl, written⟩)))⟩
          split at scanned
          next opening =>
            split at scanned
            next => cases scanned
            next =>
              obtain ⟨⟨items, after⟩, found, result⟩ := Procedure.bind_eq_ok.mp scanned
              cases result
              obtain ⟨taken, rfl, written⟩ :=
                scanBracket_reads (scanMember_reads (ih _)) '}' _ _ _ found
              exact ⟨'{' :: taken, by rw [opening]; rfl,
                Or.inr (Or.inr (Or.inr (Or.inr ⟨taken, rfl, written⟩)))⟩
          next =>
            obtain ⟨taken, split_eq, scalar⟩ := scanScalar_reads limits _ _ _ scanned
            refine ⟨taken, split_eq, Or.inr ?_⟩
            rcases scalar with word | number
            · exact Or.inl word
            · exact Or.inr (Or.inl number)

/-! ## The decoder reads all of it

A number ends where neither a digit, nor a point, nor the mark of an exponent follows.
-/

def Ends (rest : List Char) : Prop :=
  ∀ c ∈ rest.head?, c.isDigit = false ∧ c ≠ '.' ∧ c ≠ 'e' ∧ c ≠ 'E'

/-- A scanner takes every text of the given kind, or else it overruns a limit there; what follows
the text does not matter. -/
def Scans {α : Type} (one : List Char → Except Exception (α × List Char))
    (kind : List Char → Prop) : Prop :=
  ∀ text, kind text → ∃ outcome : Except Exception α, outcome ≠ .error .jsonDecodeError ∧
    ∀ rest, Ends rest → one (text ++ rest) = outcome.map (·, rest)

section Outcomes

variable {α β : Type} {outcome outcome' : Except Exception α}

/-- A function of the result adds no `JSONDecodeError`. -/
theorem map_ne_jsonDecodeError {f : α → β} (known : outcome ≠ .error .jsonDecodeError) :
    outcome.map f ≠ .error .jsonDecodeError := by
  cases outcome with
  | error raised => exact fun same => known (congrArg Except.error (Except.error.inj same))
  | ok value => exact fun impossible => by cases impossible

/-- Of two steps of which neither raises `JSONDecodeError`, the two in a row do not raise it. -/
theorem bind_ne_jsonDecodeError {next : α → Except Exception β}
    (known : outcome ≠ .error .jsonDecodeError)
    (known' : ∀ a, next a ≠ .error .jsonDecodeError) :
    outcome.bind next ≠ .error .jsonDecodeError := by
  cases outcome with
  | error raised => exact fun same => known (congrArg Except.error (Except.error.inj same))
  | ok value => exact known' value

/-- Two outcomes with one image under an injective function are one outcome. -/
theorem map_injective {f : α → β} (injective : f.Injective)
    (same : outcome.map f = outcome'.map f) : outcome = outcome' := by
  cases outcome with
  | error raised =>
      cases outcome' with
      | error raised' => exact congrArg Except.error (Except.error.inj same)
      | ok value' => cases same
  | ok value =>
      cases outcome' with
      | error raised' => cases same
      | ok value' => exact congrArg Except.ok (injective (Except.ok.inj same))

end Outcomes

/-- Blanks before a text that ends a number end it as well. -/
theorem ends_blank_append {blank rest : List Char} (blanks : Blank blank) (ends : Ends rest) :
    Ends (blank ++ rest) := by
  cases blank with
  | nil => exact ends
  | cons c blank =>
      intro d first
      obtain rfl : c = d := Option.some.inj first
      have isBlank := blanks c List.mem_cons_self
      rcases of_decide_eq_true isBlank with rfl | rfl | rfl | rfl <;> decide

/-- `skip` takes all blanks before a text that starts with none. -/
theorem skip_blank_append {blank rest : List Char} (blanks : Blank blank)
    (stops : ∀ c ∈ rest.head?, isBlank c = false) : skip (blank ++ rest) = rest := by
  rw [skip, List.dropWhile_append_of_pos blanks]
  cases rest with
  | nil => rfl
  | cons c rest => rw [List.dropWhile_cons_of_neg (by rw [stops c rfl]; exact Bool.false_ne_true)]

/-- A body of the grammar is read whole, whatever stands after the closing quote. -/
theorem StringBody.exists_scanString {body : List Char} (written : StringBody body) :
    ∃ units, ∀ rest, scanString (body ++ '"' :: rest) = some (units, rest) := by
  induction written with
  | nil => exact ⟨[], fun rest => rfl⟩
  | @plain c body notQuote notEscape printed written ih =>
      obtain ⟨units, scanned⟩ := ih
      refine ⟨c.toNat :: units, fun rest => ?_⟩
      have allowed : c ≠ '\\' ∧ 32 ≤ c.toNat := ⟨notEscape, printed⟩
      rw [List.cons_append, scanString.eq_5 c _ notQuote
        (fun _ _ _ _ _ isEscape _ => notEscape isEscape) fun _ _ isEscape _ => notEscape isEscape,
        guard, if_pos allowed, scanned]
      rfl
  | @escape c body known written ih =>
      obtain ⟨units, scanned⟩ := ih
      obtain ⟨unit, denotes⟩ : ∃ unit, escaped c = some unit := by
        rw [← Option.isSome_iff_exists]
        revert known
        revert c
        decide
      have notUnit : c ≠ 'u' := by
        rintro rfl
        exact absurd known (by decide)
      refine ⟨unit.toNat :: units, fun rest => ?_⟩
      rw [List.cons_append, List.cons_append, scanString.eq_4 c _
        fun _ _ _ _ _ isUnit _ => notUnit isUnit, denotes, scanned]
      rfl
  | @unicode a b c d body hex written ih =>
      obtain ⟨units, scanned⟩ := ih
      simp only [List.mem_cons, List.not_mem_nil, or_false, forall_eq_or_imp, forall_eq,
        Option.isSome_iff_exists] at hex
      obtain ⟨⟨x, hexA⟩, ⟨y, hexB⟩, ⟨z, hexC⟩, ⟨w, hexD⟩⟩ := hex
      refine ⟨(((x * 16 + y) * 16 + z) * 16 + w) :: units, fun rest => ?_⟩
      simp only [List.cons_append, scanString, hexA, hexB, hexC, hexD, scanned]
      rfl

/-! ### Numbers -/

/-- A whole part is read whole where no digit stands after it. -/
theorem wholeDigits_append {whole rest : List Char} (isWhole : IsWhole whole)
    (stops : ∀ c ∈ rest.head?, c.isDigit = false) : wholeDigits (whole ++ rest) = whole := by
  rcases isWhole with rfl | ⟨⟨some, digits⟩, nonzero⟩
  · rfl
  · rw [wholeDigits, List.head?_append_of_ne_nil _ some, if_neg nonzero,
      (Decimal.takeWhile_isDigit_append digits stops).1]

/-- A fraction is read whole where neither a digit nor a further point stands after it. -/
theorem fraction_append {taken rest : List Char} (isFraction : IsFraction taken)
    (stops : ∀ c ∈ rest.head?, c.isDigit = false ∧ c ≠ '.') :
    fraction (taken ++ rest) = (taken.drop 1, rest) := by
  rcases isFraction with rfl | ⟨digits, rfl, some, all⟩
  · cases rest with
    | nil => rfl
    | cons c rest =>
        exact fraction.eq_2 _ fun other isPoint => (stops c rfl).2 (List.cons.inj isPoint).1
  · obtain ⟨taken, dropped⟩ :=
      Decimal.takeWhile_isDigit_append all fun c first => (stops c first).1
    rw [List.cons_append, fraction, taken, dropped, if_neg some]
    rfl

/-- A sign before digits is recognized. -/
theorem sign_append {sign digits : List Char} (signed : sign ∈ [[], ['-'], ['+']])
    (written : Digits digits) (rest : List Char) :
    (if (sign ++ (digits ++ rest)).head? = some '-' ∨ (sign ++ (digits ++ rest)).head? = some '+'
      then (sign ++ (digits ++ rest)).tail else sign ++ (digits ++ rest)) = digits ++ rest ∧
    ((sign ++ (digits ++ rest)).head? = some '-' ↔ sign = ['-']) := by
  obtain ⟨nonempty, all⟩ := written
  obtain ⟨d, others, rfl⟩ := List.exists_cons_of_ne_nil nonempty
  have notMinus : d ≠ '-' := by
    rintro rfl
    exact absurd (all '-' List.mem_cons_self) (by decide)
  have notPlus : d ≠ '+' := by
    rintro rfl
    exact absurd (all '+' List.mem_cons_self) (by decide)
  simp only [List.mem_cons, List.not_mem_nil, or_false] at signed
  rcases signed with rfl | rfl | rfl <;> simp [notMinus, notPlus]

/-- An exponent is read whole, and to one power, before all that ends a number. -/
theorem exponent_append {taken : List Char} (isExponent : IsExponent taken) :
    ∃ power, ∀ rest, Ends rest → exponent (taken ++ rest) = (power, rest) := by
  rcases isExponent with rfl | ⟨mark, marked, sign, signed, digits, rfl, written⟩
  · refine ⟨none, fun rest ends => ?_⟩
    cases rest with
    | nil => rfl
    | cons c rest =>
        have notMark : ¬ (c = 'e' ∨ c = 'E') :=
          not_or.mpr ⟨(ends c rfl).2.2.1, (ends c rfl).2.2.2⟩
        simp only [List.nil_append, exponent, notMark, false_and, ↓reduceIte]
  · refine ⟨some (if sign = ['-'] then -(Decimal.value digits : ℤ) else Decimal.value digits),
      fun rest ends => ?_⟩
    obtain ⟨unsigned, negative⟩ := sign_append signed written rest
    obtain ⟨taken, dropped⟩ :=
      Decimal.takeWhile_isDigit_append written.2 fun c first => (ends c first).1
    have isMark : mark = 'e' ∨ mark = 'E' := by simpa using marked
    simp only [List.cons_append, List.append_assoc, exponent, unsigned, taken, dropped, isMark,
      written.1, ne_eq, not_false_eq_true, and_self, ↓reduceIte]
    simp only [negative]

/-- Before an exponent and what ends a number, a fraction stops. -/
theorem head_exponent {taken rest : List Char} (isExponent : IsExponent taken) (ends : Ends rest) :
    ∀ c ∈ (taken ++ rest).head?, c.isDigit = false ∧ c ≠ '.' := by
  intro c first
  rcases isExponent with rfl | ⟨mark, marked, sign, signed, digits, rfl, written⟩
  · exact ⟨(ends c first).1, (ends c first).2.1⟩
  · obtain rfl : mark = c := Option.some.inj first
    simp only [List.mem_cons, List.not_mem_nil, or_false] at marked
    rcases marked with rfl | rfl <;> decide

/-- Under any limits, a number without a sign is read to its end or refused for its length. -/
theorem scanUnsigned_scans (limits : Limits) (negative : Bool) :
    Scans (scanUnsigned limits negative) IsUnsigned := by
  rintro text ⟨whole, decimals, power, rfl, isWhole, isFraction, isExponent⟩
  obtain ⟨read, exponent_eq⟩ := exponent_append isExponent
  have nonempty : whole ≠ [] := by
    rcases isWhole with rfl | ⟨⟨nonempty, -⟩, -⟩
    · exact List.cons_ne_nil _ _
    · exact nonempty
  refine ⟨if decimals.drop 1 = [] ∧ read = none then
      if ∃ most ∈ limits.digits, most < whole.length then
        .error (.valueError "Exceeds the limit for integer string conversion")
      else .ok (.int (if negative then -(Decimal.value whole : ℤ) else Decimal.value whole))
    else .ok (.float (.of negative (Decimal.value (whole ++ decimals.drop 1) *
      10 ^ (read.getD 0 - (decimals.drop 1).length)))), ?_, fun rest ends => ?_⟩
  · split
    · split
      · simp
      · simp
    · simp
  have first := head_exponent isExponent ends
  have stops : ∀ c ∈ (decimals ++ (power ++ rest)).head?, c.isDigit = false := by
    rcases isFraction with rfl | ⟨digits, rfl, -⟩
    · exact fun c member => (first c member).1
    · intro c member
      obtain rfl : '.' = c := Option.some.inj member
      rfl
  simp only [List.append_assoc, scanUnsigned, wholeDigits_append isWhole stops, List.drop_left,
    fraction_append isFraction first, exponent_eq rest ends, nonempty, ↓reduceIte]
  split
  · split
    · rfl
    · rfl
  · rfl

/-- A number without a sign starts with a digit. -/
theorem isUnsigned_head {text : List Char} (isUnsigned : IsUnsigned text) :
    ∃ c tail, text = c :: tail ∧ c.isDigit = true := by
  obtain ⟨whole, decimals, power, rfl, isWhole, -⟩ := isUnsigned
  rcases isWhole with rfl | ⟨⟨nonempty, digits⟩, -⟩
  · exact ⟨'0', _, rfl, rfl⟩
  · obtain ⟨c, tail, rfl⟩ := List.exists_cons_of_ne_nil nonempty
    exact ⟨c, _, rfl, digits c List.mem_cons_self⟩

/-- So is a number with or without a sign. -/
theorem scanNumber_scans (limits : Limits) : Scans (scanNumber limits) IsNumber := by
  rintro text (isUnsigned | ⟨unsigned, rfl, isUnsigned⟩)
  · obtain ⟨outcome, known, scanned⟩ := scanUnsigned_scans limits false text isUnsigned
    obtain ⟨c, tail, rfl, digit⟩ := isUnsigned_head isUnsigned
    refine ⟨outcome, known, fun rest ends => ?_⟩
    rw [scanNumber, if_neg, scanned rest ends]
    intro minus
    exact absurd digit (by rw [Option.some.inj minus]; decide)
  · obtain ⟨outcome, known, scanned⟩ := scanUnsigned_scans limits true unsigned isUnsigned
    refine ⟨outcome, known, fun rest ends => ?_⟩
    rw [scanNumber, if_pos (by rfl)]
    exact scanned rest ends

/-! ### Values -/

/-- The characters that values begin with. -/
theorem isNumber_head {text : List Char} (isNumber : IsNumber text) :
    ∃ c tail, text = c :: tail ∧ (c.isDigit = true ∨
      c = '-' ∧ ∃ d others, tail = d :: others ∧ d.isDigit = true) := by
  rcases isNumber with isUnsigned | ⟨unsigned, rfl, isUnsigned⟩
  · obtain ⟨c, tail, rfl, digit⟩ := isUnsigned_head isUnsigned
    exact ⟨c, tail, rfl, Or.inl digit⟩
  · obtain ⟨d, others, rfl, digit⟩ := isUnsigned_head isUnsigned
    exact ⟨'-', d :: others, rfl, Or.inr ⟨rfl, d, others, rfl, digit⟩⟩

/-- No number is taken for a word. -/
theorem find?_words_of_isNumber {text : List Char} (isNumber : IsNumber text) (rest : List Char) :
    words.find? (fun word => word.1.toList.isPrefixOf (text ++ rest)) = none := by
  obtain ⟨c, tail, rfl, digit⟩ := isNumber_head isNumber
  have notLetter : ∀ {c d : Char}, c.isDigit = true → d.isDigit = false → d ≠ c := by
    rintro c d digit notDigit rfl
    rw [digit] at notDigit
    cases notDigit
  rcases digit with digit | ⟨rfl, d, others, rfl, digit⟩
  · simp [words, notLetter digit]
  · simp [words, notLetter digit]

/-- A word or a number is read to its end, or refused for the number's length. -/
theorem scanScalar_scans (limits : Limits) :
    Scans (scanScalar limits) fun text => IsWord text ∨ IsNumber text := by
  rintro text (⟨word, known, rfl⟩ | isNumber)
  · refine ⟨.ok word.2, by simp, fun rest ends => ?_⟩
    simp only [words, List.mem_cons, List.not_mem_nil, or_false] at known
    rcases known with rfl | rfl | rfl | rfl | rfl | rfl <;> rfl
  · obtain ⟨outcome, known, scanned⟩ := scanNumber_scans limits text isNumber
    refine ⟨outcome, known, fun rest ends => ?_⟩
    rw [scanScalar, find?_words_of_isNumber isNumber]
    exact scanned rest ends

/-- What items begin with is neither blank nor a closing bracket. -/
def Opens (kind : List Char → Prop) (closing : Char) : Prop :=
  ∀ text, kind text → ∃ c tail, text = c :: tail ∧ isBlank c = false ∧ c ≠ closing

section Items

variable {α : Type} {one : List Char → Except Exception (α × List Char)} {kind : List Char → Prop}
  {closing : Char} {text : List Char}

/-- A row of items starts with a character that is neither a blank nor the closing bracket. -/
theorem Items.exists_cons (written : Items kind closing text) (opens : Opens kind closing) :
    ∃ c tail, text = c :: tail ∧ isBlank c = false ∧ c ≠ closing := by
  cases written with
  | last item blanks =>
      obtain ⟨c, tail, rfl, starts⟩ := opens _ item
      exact ⟨c, _, rfl, starts⟩
  | more item blanks blanks' others =>
      obtain ⟨c, tail, rfl, starts⟩ := opens _ item
      exact ⟨c, _, rfl, starts⟩

/-- Items are read up to the closing bracket, or to the first one that overruns a limit. -/
theorem Items.exists_scanItems (scans : Scans one kind) (opens : Opens kind closing)
    (ends : ∀ rest, Ends (closing :: rest)) (notBlank : isBlank closing = false)
    (notComma : ',' ≠ closing) (written : Items kind closing text) :
    ∃ outcome : Except Exception (List α), outcome ≠ .error .jsonDecodeError ∧
      ∀ fuel rest, text.length ≤ fuel →
        scanItems one closing fuel (text ++ rest) = outcome.map (·, rest) := by
  induction written with
  | @last item blank written blanks =>
      obtain ⟨outcome, known, scanned⟩ := scans item written
      refine ⟨outcome.map ([·]), map_ne_jsonDecodeError known, fun fuel rest enough => ?_⟩
      cases fuel with
      | zero => simp at enough
      | succ fuel =>
          have skipped : skip (blank ++ closing :: rest) = closing :: rest :=
            skip_blank_append blanks (by simpa using notBlank)
          rw [List.append_assoc, List.append_assoc, List.singleton_append, scanItems,
            scanned _ (ends_blank_append blanks (ends rest))]
          cases outcome with
          | error raised => rfl
          | ok value =>
              simp only [Except.map, Procedure.ok_bind, skipped, ↓reduceIte]
              rfl
  | @more item blank blank' others written blanks blanks' rest ih =>
      obtain ⟨outcome, known, scanned⟩ := scans item written
      obtain ⟨outcome', known', scanned'⟩ := ih
      refine ⟨outcome.bind fun value => outcome'.map (value :: ·),
        bind_ne_jsonDecodeError known fun value => map_ne_jsonDecodeError known',
        fun fuel after enough => ?_⟩
      cases fuel with
      | zero => simp at enough
      | succ fuel =>
          obtain ⟨c, tail, others_eq, starts, -⟩ := rest.exists_cons opens
          have comma : Ends (',' :: (blank' ++ others ++ after)) := by
            intro c first
            obtain rfl : ',' = c := Option.some.inj first
            decide
          have fits : others.length ≤ fuel := by
            simp only [List.length_append, List.length_cons] at enough
            omega
          have skipped : skip (blank ++ ',' :: (blank' ++ others ++ after)) =
              ',' :: (blank' ++ others ++ after) := by
            refine skip_blank_append blanks fun c first => ?_
            obtain rfl : ',' = c := Option.some.inj first
            rfl
          have skipped' : skip (blank' ++ others ++ after) = others ++ after := by
            rw [List.append_assoc]
            refine skip_blank_append blanks' ?_
            rw [others_eq]
            simpa using starts
          rw [List.append_assoc, List.append_assoc, List.cons_append, scanItems,
            scanned _ (ends_blank_append blanks comma)]
          cases outcome with
          | error raised => rfl
          | ok value =>
              simp only [Except.map, Procedure.ok_bind, skipped, notComma, ↓reduceIte, skipped',
                scanned' fuel after fits]
              cases outcome' with
              | error raised => rfl
              | ok values => rfl

/-- What follows an opening bracket is read up to the closing one. -/
theorem scanBracket_scans (scans : Scans one kind) (opens : Opens kind closing)
    (ends : ∀ rest, Ends (closing :: rest)) (notBlank : isBlank closing = false)
    (notComma : ',' ≠ closing) (written : Bracket kind closing text) :
    ∃ outcome : Except Exception (List α), outcome ≠ .error .jsonDecodeError ∧
      ∀ rest, scanBracket one closing (text ++ rest) = outcome.map (·, rest) := by
  cases written with
  | @empty blank blanks =>
      refine ⟨.ok [], by simp, fun rest => ?_⟩
      rw [List.append_assoc, scanBracket, skip_blank_append blanks (by simpa using notBlank)]
      exact if_pos rfl
  | @items blank text blanks written =>
      obtain ⟨c, tail, text_eq, starts, notClosing⟩ := written.exists_cons opens
      obtain ⟨outcome, known, scanned⟩ :=
        written.exists_scanItems scans opens ends notBlank notComma
      refine ⟨outcome, known, fun rest => ?_⟩
      have skipped : skip (blank ++ (text ++ rest)) = text ++ rest := by
        refine skip_blank_append blanks ?_
        rw [text_eq]
        simpa using starts
      rw [List.append_assoc, scanBracket, skipped, if_neg,
        scanned _ rest (by rw [List.length_append]; omega)]
      rw [text_eq]
      simpa using notClosing

end Items

/-- No value starts with a blank or with a closing bracket. -/
theorem isValue_opens {closing : Char} (bracket : closing = ']' ∨ closing = '}') (depth : ℕ) :
    Opens (IsValue depth) closing := by
  have notBracket : ∀ {c : Char}, c ≠ ']' → c ≠ '}' → c ≠ closing := by
    rintro c notList notDict rfl
    exact bracket.elim notList notDict
  intro text written
  cases depth with
  | zero => exact written.elim
  | succ depth =>
      rcases written with ⟨body, rfl, -⟩ | ⟨word, known, rfl⟩ | isNumber | ⟨inside, rfl, -⟩ |
        ⟨inside, rfl, -⟩
      · exact ⟨'"', _, rfl, rfl, notBracket (by decide) (by decide)⟩
      · simp only [words, List.mem_cons, List.not_mem_nil, or_false] at known
        rcases known with rfl | rfl | rfl | rfl | rfl | rfl
        all_goals exact ⟨_, _, rfl, rfl, notBracket (by decide) (by decide)⟩
      · obtain ⟨c, tail, rfl, digit⟩ := isNumber_head isNumber
        refine ⟨c, tail, rfl, ?_⟩
        rcases digit with digit | ⟨rfl, -⟩
        · have other : ∀ {d : Char}, d.isDigit = false → c ≠ d := by
            rintro d notDigit rfl
            rw [digit] at notDigit
            cases notDigit
          refine ⟨decide_eq_false ?_, notBracket (other rfl) (other rfl)⟩
          simp [other]
        · exact ⟨rfl, notBracket (by decide) (by decide)⟩
      · exact ⟨'[', _, rfl, rfl, notBracket (by decide) (by decide)⟩
      · exact ⟨'{', _, rfl, rfl, notBracket (by decide) (by decide)⟩

/-- A member starts with its quote. -/
theorem isMember_opens (value : List Char → Prop) : Opens (IsMember value) '}' := by
  rintro text ⟨key, blank, blank', written, rfl, ⟨body, rfl, -⟩, -⟩
  exact ⟨'"', _, rfl, rfl, by decide⟩

/-- A member is read to its end if the scanner of values reads values to theirs. -/
theorem scanMember_scans {one : List Char → Except Exception (Value × List Char)}
    {kind : List Char → Prop} (scans : Scans one kind) (opens : Opens kind '}') :
    Scans (scanMember one) (IsMember kind) := by
  rintro text ⟨key, blank, blank', written, rfl, ⟨body, rfl, string⟩, blanks, blanks', isValue⟩
  obtain ⟨units, scannedKey⟩ := string.exists_scanString
  obtain ⟨outcome, known, scanned⟩ := scans written isValue
  refine ⟨outcome.map (characters units, ·), map_ne_jsonDecodeError known, fun rest ends => ?_⟩
  have skipped : skip (blank ++ ':' :: (blank' ++ (written ++ rest))) =
      ':' :: (blank' ++ (written ++ rest)) := by
    refine skip_blank_append blanks fun c first => ?_
    obtain rfl : ':' = c := Option.some.inj first
    rfl
  have skipped' : skip (blank' ++ (written ++ rest)) = written ++ rest := by
    obtain ⟨c, tail, rfl, starts, -⟩ := opens written isValue
    exact skip_blank_append blanks' (by simpa using starts)
  simp only [List.append_assoc, List.cons_append, List.nil_append, scanMember, scannedKey, decoded,
    Procedure.ok_bind, skipped, skipped', scanned rest ends]
  cases outcome with
  | error raised => rfl
  | ok value => rfl

/-- Words and numbers are told from the other values by their first character. -/
theorem scanOnce_scalar {text : List Char} (scalar : IsWord text ∨ IsNumber text)
    (limits : Limits) (fuel : ℕ) (rest : List Char) :
    scanOnce limits (fuel + 1) (text ++ rest) = scanScalar limits (text ++ rest) := by
  rcases scalar with ⟨word, known, rfl⟩ | isNumber
  · simp only [words, List.mem_cons, List.not_mem_nil, or_false] at known
    rcases known with rfl | rfl | rfl | rfl | rfl | rfl <;> rfl
  · obtain ⟨c, tail, rfl, digit⟩ := isNumber_head isNumber
    rcases digit with digit | ⟨rfl, -⟩
    · have other : ∀ {d : Char}, d.isDigit = false → c ≠ d := by
        rintro d notDigit rfl
        rw [digit] at notDigit
        cases notDigit
      rw [List.cons_append, scanOnce, if_neg (other rfl), if_neg (other rfl), if_neg (other rfl)]
    · rfl

/-- A closing bracket ends a number. -/
theorem ends_bracket {closing : Char} (bracket : closing = ']' ∨ closing = '}') (rest : List Char) :
    Ends (closing :: rest) := by
  intro c first
  obtain rfl : closing = c := Option.some.inj first
  rcases bracket with rfl | rfl <;> decide

/-- An object is read where its members are, unless it is nested too deep. -/
theorem scanDict_scans {limits : Limits} {depth fuel : ℕ} {inside : List Char}
    (scans : Scans (scanOnce limits.inner fuel) (IsValue depth))
    (bracket : Bracket (IsMember (IsValue depth)) '}' inside) :
    ∃ outcome : Except Exception (List (List Char × Value)),
      outcome ≠ .error .jsonDecodeError ∧ ∀ rest,
        scanOnce limits (fuel + 1) ('{' :: inside ++ rest) =
          outcome.map fun items => (.dict items, rest) := by
  obtain ⟨outcome, known, scanned⟩ := scanBracket_scans
    (scanMember_scans scans (isValue_opens (Or.inr rfl) depth)) (isMember_opens _)
    (ends_bracket (Or.inr rfl)) rfl (by decide) bracket
  by_cases full : limits.depth = some 0
  · refine ⟨.error .recursionError, by simp, fun rest => ?_⟩
    rw [List.cons_append, scanOnce, if_neg (by decide), if_neg (by decide), if_pos rfl, if_pos full]
    rfl
  · refine ⟨outcome.map fun items => items.foldl insert [], map_ne_jsonDecodeError known,
      fun rest => ?_⟩
    rw [List.cons_append, scanOnce, if_neg (by decide), if_neg (by decide), if_pos rfl,
      if_neg full, scanned]
    cases outcome with
    | error raised => rfl
    | ok items => rfl

/-- The decoder reads a value's text, and what follows stays. -/
theorem scanOnce_scans {depth fuel : ℕ} (deep : depth ≤ fuel) (limits : Limits) :
    Scans (scanOnce limits fuel) (IsValue depth) := by
  induction fuel generalizing depth limits with
  | zero =>
      intro text written
      obtain rfl := Nat.le_zero.mp deep
      exact written.elim
  | succ fuel ih =>
      intro text written
      cases depth with
      | zero => exact written.elim
      | succ depth =>
          have scans := ih (Nat.le_of_succ_le_succ deep) limits.inner
          rcases written with ⟨body, rfl, string⟩ | word | isNumber | ⟨inside, rfl, bracket⟩ |
            ⟨inside, rfl, bracket⟩
          · obtain ⟨units, scanned⟩ := string.exists_scanString
            refine ⟨.ok (.str (characters units)), by simp, fun rest ends => ?_⟩
            rw [List.cons_append, List.append_assoc, scanOnce, if_pos rfl, List.singleton_append,
              scanned]
            rfl
          · obtain ⟨outcome, known, scanned⟩ := scanScalar_scans limits text (Or.inl word)
            refine ⟨outcome, known, fun rest ends => ?_⟩
            rw [scanOnce_scalar (Or.inl word), scanned rest ends]
          · obtain ⟨outcome, known, scanned⟩ := scanScalar_scans limits text (Or.inr isNumber)
            refine ⟨outcome, known, fun rest ends => ?_⟩
            rw [scanOnce_scalar (Or.inr isNumber), scanned rest ends]
          · obtain ⟨outcome, known, scanned⟩ := scanBracket_scans scans
              (isValue_opens (Or.inl rfl) depth) (ends_bracket (Or.inl rfl)) rfl (by decide) bracket
            by_cases full : limits.depth = some 0
            · refine ⟨.error .recursionError, by simp, fun rest ends => ?_⟩
              rw [List.cons_append, scanOnce, if_neg (by decide), if_pos rfl, if_pos full]
              rfl
            · refine ⟨outcome.map .list, map_ne_jsonDecodeError known, fun rest ends => ?_⟩
              rw [List.cons_append, scanOnce, if_neg (by decide), if_pos rfl, if_neg full, scanned]
              cases outcome with
              | error raised => rfl
              | ok items => rfl
          · obtain ⟨outcome, known, scanned⟩ := scanDict_scans scans bracket
            refine ⟨outcome.map .dict, map_ne_jsonDecodeError known, fun rest ends => ?_⟩
            rw [scanned]
            cases outcome with
            | error raised => rfl
            | ok items => rfl

/-! ## Objects -/

/-- The decoder reads an object's text, and what follows stays. -/
theorem IsObject.exists_scanOnce {text : List Char} (isObject : IsObject text) (limits : Limits) :
    ∃ outcome : Except Exception (List (List Char × Value)),
      outcome ≠ .error .jsonDecodeError ∧ ∀ rest,
        scanOnce limits (text ++ rest).length (text ++ rest) =
          outcome.map fun items => (.dict items, rest) := by
  obtain ⟨depth, inside, rfl, bracket⟩ := isObject
  have scanned : ∀ rest, ∃ outcome : Except Exception (List (List Char × Value)),
      outcome ≠ .error .jsonDecodeError ∧
      scanOnce limits ('{' :: inside).length ('{' :: inside) =
        outcome.map (fun items => (.dict items, [])) ∧
      scanOnce limits ('{' :: inside ++ rest).length ('{' :: inside ++ rest) =
        outcome.map fun items => (.dict items, rest) := by
    intro rest
    let fuel := max depth ('{' :: inside ++ rest).length
    obtain ⟨outcome, known, read⟩ := scanDict_scans
      (scanOnce_scans (le_max_left depth ('{' :: inside ++ rest).length) limits.inner) bracket
    have long : ('{' :: inside ++ rest).length ≤ fuel + 1 :=
      (le_max_right _ _).trans (Nat.le_succ _)
    have short : ('{' :: inside).length ≤ fuel + 1 := by
      rw [List.length_append] at long
      omega
    refine ⟨outcome, known, ?_, ?_⟩
    · rw [← scanOnce_fuel short, ← List.append_nil ('{' :: inside), read]
    · rw [← scanOnce_fuel long, read]
  obtain ⟨outcome, known, whole, -⟩ := scanned []
  refine ⟨outcome, known, fun rest => ?_⟩
  obtain ⟨outcome', -, whole', read⟩ := scanned rest
  have same : outcome = outcome' := map_injective
    (fun items items' same => Value.dict.inj (Prod.mk.inj same).1) (whole.symm.trans whole')
  rw [read, same]

/-- No word and no number is an object. -/
theorem scanScalar_ne_dict {limits : Limits} {text rest : List Char}
    {items : List (List Char × Value)} : scanScalar limits text ≠ .ok (.dict items, rest) := by
  intro scanned
  unfold scanScalar at scanned
  split at scanned
  next word value found =>
    have known := List.mem_of_find?_eq_some found
    cases scanned
    simp [words] at known
  next =>
    simp only [scanNumber, scanUnsigned] at scanned
    split_ifs at scanned <;> cases scanned

/-- What the decoder takes for an object is an object's text. -/
theorem isObject_of_scanOnce {limits : Limits} {fuel : ℕ} {text rest : List Char}
    {items : List (List Char × Value)}
    (scanned : scanOnce limits fuel text = .ok (.dict items, rest)) :
    ∃ taken, text = taken ++ rest ∧ IsObject taken := by
  cases text with
  | nil => cases fuel <;> cases scanned
  | cons c tail =>
      cases fuel with
      | zero => cases scanned
      | succ fuel =>
          simp only [scanOnce] at scanned
          split at scanned
          · simp only [Procedure.bind_eq_ok, decoded_eq_ok] at scanned
            obtain ⟨_, -, result⟩ := scanned
            cases result
          split at scanned
          · split at scanned
            · cases scanned
            · obtain ⟨_, -, result⟩ := Procedure.bind_eq_ok.mp scanned
              cases result
          split at scanned
          next opening =>
            split at scanned
            next => cases scanned
            next =>
              obtain ⟨⟨members, after⟩, found, result⟩ := Procedure.bind_eq_ok.mp scanned
              cases result
              obtain ⟨taken, rfl, bracket⟩ :=
                scanBracket_reads (scanMember_reads (scanOnce_reads _ fuel)) '}' _ _ _ found
              exact ⟨'{' :: taken, by rw [opening]; rfl, fuel, taken, rfl, bracket⟩
          next => exact absurd scanned scanScalar_ne_dict

/-- A whole text that the decoder reads as a dictionary is an object of the grammar. -/
theorem isObject_of_scanOnce_nil {limits : Limits} {fuel : ℕ} {text : List Char}
    {items : List (List Char × Value)}
    (scanned : scanOnce limits fuel text = .ok (.dict items, [])) : IsObject text := by
  obtain ⟨taken, rfl, isObject⟩ := isObject_of_scanOnce scanned
  rwa [List.append_nil]

end Json

open Json

/-- An object's text is decoded to an object, whatever follows it, unless it overruns a limit. -/
theorem Json.IsObject.exists_loads {text : List Char} (isObject : IsObject text)
    (limits : Limits) :
    ∃ outcome : Except Exception (List (List Char × Value)),
      outcome ≠ .error .jsonDecodeError ∧ loads limits text = outcome.map .dict ∧
        ∀ fuel rest, (text ++ rest).length ≤ fuel →
          scanOnce limits fuel (text ++ rest) = outcome.map fun items => (.dict items, rest) := by
  obtain ⟨outcome, known, scanned⟩ := isObject.exists_scanOnce limits
  have whole := scanned []
  rw [List.append_nil] at whole
  have skipped : skip text = text := by
    obtain ⟨depth, inside, rfl, -⟩ := isObject
    rfl
  refine ⟨outcome, known, ?_, fun fuel rest enough => by rw [scanOnce_fuel enough, scanned]⟩
  rw [loads, skipped, whole]
  cases outcome with
  | error raised => rfl
  | ok items => rfl

/-- What is decoded to an object is an object's text with blanks around it. -/
theorem exists_isObject_of_loads {limits : Limits} {text : List Char}
    {items : List (List Char × Value)} (decoded : loads limits text = .ok (.dict items)) :
    ∃ front written back, text = front ++ (written ++ back) ∧ Blank front ∧ Blank back ∧
      IsObject written ∧ loads limits written = .ok (.dict items) := by
  obtain ⟨⟨value, rest⟩, scanned, result⟩ := Procedure.bind_eq_ok.mp decoded
  simp only at result
  split at result
  next nothing =>
    cases result
    obtain ⟨front, text_eq, blanks⟩ := exists_blank_append text
    obtain ⟨back, rest_eq, blanks'⟩ := exists_blank_append rest
    rw [nothing, List.append_nil] at rest_eq
    obtain ⟨written, left, isObject⟩ := isObject_of_scanOnce scanned
    obtain ⟨outcome, -, decoded, scanned'⟩ := isObject.exists_loads limits
    have same : outcome.map (fun items => (Value.dict items, rest)) = .ok (.dict items, rest) := by
      rw [← scanned, left, scanned' _ _ (left ▸ length_skip_le text)]
    refine ⟨front, written, rest, by rw [← left, ← text_eq], blanks, rest_eq ▸ blanks', isObject,
      ?_⟩
    cases outcome with
    | error raised => cases same
    | ok items' =>
        rw [decoded, ← (Prod.mk.inj (Except.ok.inj same)).1, Except.map]
  next => cases result

end BirrTrack.Python
