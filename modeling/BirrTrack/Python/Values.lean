import BirrTrack.Js.Number
import BirrTrack.Python.Text

/-! # Python values

The values that decoded JSON is made of, `float` of whole numbers and of decimal texts, and
`str`. A lone surrogate, which only an escape of JSON can make, is no character here; it
stands as the replacement character.
-/

namespace BirrTrack.Python

/-- A `float`: a binary64 number, with its second zero, the infinities and NaN. -/
inductive Double where
  | finite (value : ℚ) (representable : Binary64.Representable value)
  | negativeZero
  | infinity (negative : Bool)
  | nan

namespace Double

/-- `math.isfinite` -/
def IsFinite : Double → Prop
  | finite _ _ => True
  | negativeZero => True
  | infinity _ => False
  | nan => False

/-- The number that a finite `float` is. -/
def value : Double → Option ℚ
  | finite v _ => some v
  | negativeZero => some 0
  | infinity _ => none
  | nan => none

/-- The double nearest to a number of the given sign and magnitude. -/
def of (negative : Bool) (magnitude : ℚ) : Double :=
  match rounded : Binary64.round magnitude with
  | none => infinity negative
  | some v =>
      if negative then
        if v = 0 then negativeZero
        else finite (-v) (Binary64.representable_neg (Binary64.representable_of_round rounded))
      else finite v (Binary64.representable_of_round rounded)

theorem value_of (negative : Bool) (magnitude : ℚ) : (of negative magnitude).value =
    (Binary64.round magnitude).map fun v => if negative then -v else v := by
  have mapped : ∀ {result : Option ℚ}, Binary64.round magnitude = result →
      (Binary64.round magnitude).map (fun v => if negative then -v else v) =
        result.map fun v => if negative then -v else v := fun rounded => by rw [rounded]
  unfold of
  split
  next overflows => exact (mapped overflows).symm
  next v rounded =>
    rw [mapped rounded, Option.map_some]
    cases negative with
    | false => rfl
    | true =>
        simp only [↓reduceIte]
        split
        next zero => rw [zero, neg_zero]; rfl
        next => rfl

/-- `float(n)`, none for an OverflowError. -/
def ofInt (n : ℤ) : Option Double :=
  match rounded : Binary64.round n with
  | none => none
  | some v => some (finite v (Binary64.representable_of_round rounded))

/-- `float(text)` of a text of digits, points and minus signs, none for a ValueError. -/
def ofText (text : List Char) : Option Double :=
  let ascii := text.map toAscii
  (Decimal.literal ascii).map fun q => of (ascii.head? = some '-') |q|

/-- A text without its underscores, each of which has to stand between two digits. -/
def joinDigits : Bool → List Char → Option (List Char)
  | _, [] => some []
  | _, ['_'] => none
  | afterDigit, '_' :: c :: rest =>
      if afterDigit ∧ c.isDigit then (joinDigits true rest).map (c :: ·) else none
  | _, c :: rest => (joinDigits c.isDigit rest).map (c :: ·)

/-- A text as `int` and `float` read it: in ASCII, without the white space at its two ends. -/
def numeral (text : List Char) : List Char :=
  let isBlank : Char → Bool := fun c => c = ' ' || 9 ≤ c.toNat && c.toNat ≤ 13
  -- The separators of ASCII count as white space only next to other characters.
  let ascii := if text.all (·.toNat < 128) then text
    else text.map fun c => if isSpace c then ' ' else toAscii c
  ((ascii.dropWhile isBlank).reverse.dropWhile isBlank).reverse

/-- `float(text)` of any text, none for a ValueError. -/
def parse (text : List Char) : Option Double :=
  let ascii := numeral text
  let negative : Bool := ascii.head? = some '-'
  let unsigned := if negative ∨ ascii.head? = some '+' then ascii.tail else ascii
  let word := unsigned.map Char.toLower
  if word = "inf".toList ∨ word = "infinity".toList then some (infinity negative)
  else if word = "nan".toList then some nan
  else ((joinDigits false ascii).bind Decimal.literal).map fun q => of negative |q|

/-- The layout of `repr` for the digits of a positive number with their decimal point. -/
def layout (digits : List Char) (point : ℤ) : List Char :=
  if -4 < point ∧ point ≤ 16 then
    if point ≤ 0 then '0' :: '.' :: (List.replicate (-point).toNat '0' ++ digits)
    else if digits.length ≤ point then
      digits ++ (List.replicate (point - digits.length).toNat '0' ++ ['.', '0'])
    else digits.take point.toNat ++ '.' :: digits.drop point.toNat
  else
    let places := Nat.toDigits 10 (point - 1).natAbs
    let exponent := (if point - 1 < 0 then '-' else '+') ::
      (if places.length < 2 then '0' :: places else places)
    match digits with
    | [] => []
    | [digit] => digit :: 'e' :: exponent
    | digit :: decimals => digit :: '.' :: (decimals ++ 'e' :: exponent)

/-- The text of a positive number, with the fewest digits that round back to it. -/
def positiveRepr (v : ℚ) : List Char :=
  match Js.Number.shortest v with
  | some s => layout (Nat.toDigits 10 s.digits) s.point
  | none => []

/-- `repr(x)` -/
def repr : Double → List Char
  | finite v _ =>
      if v = 0 then "0.0".toList
      else if v < 0 then '-' :: positiveRepr (-v)
      else positiveRepr v
  | negativeZero => "-0.0".toList
  | infinity negative => if negative then "-inf".toList else "inf".toList
  | nan => "nan".toList

end Double

/-- `int(text)`, none for a ValueError; a number has 4300 digits at most. -/
def parseInt (text : List Char) : Option ℤ :=
  (Double.joinDigits false (Double.numeral text)).bind fun joined =>
    if joined.countP Char.isDigit ≤ 4300 then Decimal.integer joined else none

/-- The exceptions that decoding and the parser can raise; a `JSONDecodeError` is a
`ValueError`, a `RecursionError` is none. -/
inductive Exception where
  | valueError (message : String)
  | jsonDecodeError
  | overflowError
  | recursionError
  deriving DecidableEq

def Exception.IsValueError : Exception → Prop
  | .valueError _ => True
  | .jsonDecodeError => True
  | .overflowError => False
  | .recursionError => False

/-- What `json.loads` returns. -/
inductive Value where
  | none
  | bool (b : Bool)
  | int (n : ℤ)
  | float (x : Double)
  | str (text : List Char)
  | list (items : List Value)
  /-- The items in the order of their first insertion. -/
  | dict (items : List (List Char × Value))

/-- `hex` without its prefix, with leading zeros. -/
def hex (width n : ℕ) : List Char :=
  let digits := Nat.toDigits 16 n
  List.replicate (width - digits.length) '0' ++ digits

section Repr

-- `str.isprintable` of a single character
variable (isPrintable : Char → Bool)

/-- How `repr` writes a character between the given quotes. -/
def escape (quote c : Char) : List Char :=
  if c = quote ∨ c = '\\' then ['\\', c]
  else if c = '\t' then ['\\', 't']
  else if c = '\n' then ['\\', 'n']
  else if c = '\r' then ['\\', 'r']
  else if isPrintable c then [c]
  else if c.toNat ≤ 0xFF then '\\' :: 'x' :: hex 2 c.toNat
  else if c.toNat ≤ 0xFFFF then '\\' :: 'u' :: hex 4 c.toNat
  else '\\' :: 'U' :: hex 8 c.toNat

/-- `repr` of a text, in double quotes only where these save an escape. -/
def reprText (text : List Char) : List Char :=
  let quote := if text.contains '\'' ∧ ¬ text.contains '"' then '"' else '\''
  quote :: (text.flatMap (escape isPrintable quote) ++ [quote])

mutual

def Value.repr : Value → List Char
  | .none => "None".toList
  | .bool true => "True".toList
  | .bool false => "False".toList
  | .int n => (if n < 0 then ['-'] else []) ++ Nat.toDigits 10 n.natAbs
  | .float x => x.repr
  | .str text => reprText isPrintable text
  | .list items => '[' :: (List.intercalate [',', ' '] (Value.reprs items) ++ [']'])
  | .dict items => '{' :: (List.intercalate [',', ' '] (Value.reprItems items) ++ ['}'])

def Value.reprs : List Value → List (List Char)
  | [] => []
  | value :: values => value.repr :: Value.reprs values

def Value.reprItems : List (List Char × Value) → List (List Char)
  | [] => []
  | (key, value) :: items =>
      (reprText isPrintable key ++ ':' :: ' ' :: value.repr) :: Value.reprItems items

end

/-- `str(value)` -/
def Value.toStr : Value → List Char
  | .str text => text
  | value => value.repr isPrintable

end Repr

/-- `items.get(key)`; an absent key reads as None. -/
def get (items : List (List Char × Value)) (key : String) : Value :=
  match items.find? fun item => item.1 = key.toList with
  | some item => item.2
  | none => .none

end BirrTrack.Python
