import BirrTrack.OcrService.Parser
import BirrTrack.Python.JsonTexts

/-! # Balanced braces

`_find_balanced_json_object` on a text with an object in it. Within the object every value leaves
the depth of the scanner as it is, and takes the scanner into strings and out of them again.
-/

namespace BirrTrack.OcrService

open Python Python.Json

/-- A text that leaves the scanner's state as it is, at any depth within an object. -/
def Neutral (text : List Char) : Prop :=
  ∀ depth : ℤ, 1 ≤ depth → ∀ rest, balancedFrom ⟨depth, false, false⟩ (text ++ rest) =
    (balancedFrom ⟨depth, false, false⟩ rest).map (text ++ ·)

theorem neutral_nil : Neutral [] := by
  intro depth inside rest
  exact Option.map_id_apply.symm

theorem neutral_append {front back : List Char} (neutral : Neutral front)
    (neutral' : Neutral back) : Neutral (front ++ back) := by
  intro depth inside rest
  rw [List.append_assoc, neutral depth inside, neutral' depth inside, Option.map_map]
  congr 1
  funext text
  exact (List.append_assoc front back text).symm

theorem neutral_cons {c : Char} {text : List Char} (plain : c ∉ ['"', '{', '}'])
    (neutral : Neutral text) : Neutral (c :: text) := by
  simp only [List.mem_cons, List.not_mem_nil, or_false, not_or] at plain
  intro depth inside rest
  have step : balancedFrom ⟨depth, false, false⟩ (c :: (text ++ rest)) =
      (balancedFrom ⟨depth, false, false⟩ (text ++ rest)).map (c :: ·) := by
    simp [balancedFrom, plain]
  rw [List.cons_append, step, neutral depth inside, Option.map_map]
  rfl

theorem neutral_of_plain {text : List Char} (plain : ∀ c ∈ text, c ∉ ['"', '{', '}']) :
    Neutral text := by
  induction text with
  | nil => exact neutral_nil
  | cons c text ih =>
      exact neutral_cons (plain c List.mem_cons_self)
        (ih fun c member => plain c (List.mem_cons_of_mem _ member))

/-! ## Strings -/

/-- The closing quote is the first one that no backslash escapes. -/
theorem balancedFrom_stringBody {body : List Char} (written : StringBody body) (depth : ℤ)
    (rest : List Char) : balancedFrom ⟨depth, true, false⟩ (body ++ '"' :: rest) =
      (balancedFrom ⟨depth, false, false⟩ rest).map (body ++ '"' :: ·) := by
  have escaped : ∀ c rest, balancedFrom ⟨depth, true, false⟩ ('\\' :: c :: rest) =
      (balancedFrom ⟨depth, true, false⟩ rest).map ('\\' :: c :: ·) := by
    intro c rest
    simp only [balancedFrom, and_self, ↓reduceIte, Option.map_map]
    rfl
  have inner : ∀ c rest, c ≠ '"' → c ≠ '\\' → balancedFrom ⟨depth, true, false⟩ (c :: rest) =
      (balancedFrom ⟨depth, true, false⟩ rest).map (c :: ·) := by
    intro c rest notQuote notEscape
    simp [balancedFrom, notQuote, notEscape]
  induction written with
  | nil => rfl
  | plain notQuote notEscape printed body ih =>
      rw [List.cons_append, inner _ _ notQuote notEscape, ih, Option.map_map]
      rfl
  | escape known body ih =>
      rw [List.cons_append, List.cons_append, escaped, ih, Option.map_map]
      rfl
  | @unicode a b c d body hex written ih =>
      have plain : ∀ digit ∈ [a, b, c, d], digit ≠ '"' ∧ digit ≠ '\\' := by
        intro digit member
        constructor
        · rintro rfl
          exact absurd (hex _ member) (by decide)
        · rintro rfl
          exact absurd (hex _ member) (by decide)
      simp only [List.mem_cons, List.not_mem_nil, or_false, forall_eq_or_imp, forall_eq] at plain
      simp only [List.cons_append]
      rw [escaped, inner a _ plain.1.1 plain.1.2, inner b _ plain.2.1.1 plain.2.1.2,
        inner c _ plain.2.2.1.1 plain.2.2.1.2, inner d _ plain.2.2.2.1 plain.2.2.2.2, ih]
      simp only [Option.map_map]
      rfl

theorem neutral_of_isString {text : List Char} (isString : IsString text) : Neutral text := by
  obtain ⟨body, rfl, written⟩ := isString
  intro depth inside rest
  have opened : balancedFrom ⟨depth, false, false⟩ ('"' :: (body ++ '"' :: rest)) =
      (balancedFrom ⟨depth, true, false⟩ (body ++ '"' :: rest)).map ('"' :: ·) := rfl
  rw [List.cons_append, List.append_assoc, List.singleton_append, opened,
    balancedFrom_stringBody written, Option.map_map]
  congr 1
  funext text
  simp

/-! ## Values -/

theorem neutral_of_isPlain {text : List Char} (plain : ∀ c ∈ text, isPlain c = true) :
    Neutral text := by
  refine neutral_of_plain fun c member special => ?_
  have ordinary := plain c member
  simp only [List.mem_cons, List.not_mem_nil, or_false] at special
  rcases special with rfl | rfl | rfl <;> exact absurd ordinary (by decide)

theorem neutral_of_blank {text : List Char} (blanks : Blank text) : Neutral text := by
  refine neutral_of_plain fun c member special => ?_
  have blank := blanks c member
  simp only [List.mem_cons, List.not_mem_nil, or_false] at special
  rcases special with rfl | rfl | rfl <;> cases blank

section Brackets

variable {kind : List Char → Prop} {closing : Char} {text : List Char}

theorem exists_neutral_of_items (neutral : ∀ text, kind text → Neutral text)
    (written : Items kind closing text) :
    ∃ inside, text = inside ++ [closing] ∧ Neutral inside := by
  induction written with
  | @last item blank written blanks =>
      exact ⟨item ++ blank, (List.append_assoc _ _ _).symm,
        neutral_append (neutral item written) (neutral_of_blank blanks)⟩
  | @more item blank blank' rest written blanks blanks' others ih =>
      obtain ⟨inside, rfl, neutralInside⟩ := ih
      refine ⟨item ++ (blank ++ ',' :: (blank' ++ inside)), ?_, ?_⟩
      · simp only [List.append_assoc, List.cons_append]
      · exact neutral_append (neutral item written) (neutral_append (neutral_of_blank blanks)
          (neutral_cons (by decide) (neutral_append (neutral_of_blank blanks') neutralInside)))

/-- What stands between brackets leaves the state as it is. -/
theorem exists_neutral_of_bracket (neutral : ∀ text, kind text → Neutral text)
    (written : Bracket kind closing text) :
    ∃ inside, text = inside ++ [closing] ∧ Neutral inside := by
  cases written with
  | empty blanks => exact ⟨_, rfl, neutral_of_blank blanks⟩
  | items blanks written =>
      obtain ⟨inside, rfl, neutralInside⟩ := exists_neutral_of_items neutral written
      exact ⟨_, (List.append_assoc _ _ _).symm,
        neutral_append (neutral_of_blank blanks) neutralInside⟩

end Brackets

theorem neutral_of_isMember {kind : List Char → Prop} (neutral : ∀ text, kind text → Neutral text)
    {text : List Char} (isMember : IsMember kind text) : Neutral text := by
  obtain ⟨key, blank, blank', written, rfl, isString, blanks, blanks', isValue⟩ := isMember
  exact neutral_append (neutral_of_isString isString) (neutral_append (neutral_of_blank blanks)
    (neutral_cons (by decide) (neutral_append (neutral_of_blank blanks') (neutral _ isValue))))

theorem balancedFrom_open (depth : ℤ) (rest : List Char) :
    balancedFrom ⟨depth, false, false⟩ ('{' :: rest) =
      (balancedFrom ⟨depth + 1, false, false⟩ rest).map ('{' :: ·) := by
  simp [balancedFrom]

theorem balancedFrom_close (depth : ℤ) (rest : List Char) :
    balancedFrom ⟨depth, false, false⟩ ('}' :: rest) =
      if depth - 1 = 0 then some ['}']
      else (balancedFrom ⟨depth - 1, false, false⟩ rest).map ('}' :: ·) := by
  simp [balancedFrom]

/-- A value leaves the state as it is, however deep its own nesting. -/
theorem neutral_of_isValue (depth : ℕ) : ∀ text, IsValue depth text → Neutral text := by
  induction depth with
  | zero => exact fun text written => written.elim
  | succ depth ih =>
      rintro text (isString | isWord | isNumber | ⟨inside, rfl, bracket⟩ | ⟨inside, rfl, bracket⟩)
      · exact neutral_of_isString isString
      · exact neutral_of_isPlain (isPlain_of_isWord isWord)
      · exact neutral_of_isPlain (isPlain_of_isNumber isNumber)
      · obtain ⟨inside, rfl, neutral⟩ := exists_neutral_of_bracket ih bracket
        exact neutral_cons (by decide) (neutral_append neutral (neutral_of_plain (by decide)))
      · obtain ⟨inside, rfl, neutral⟩ :=
          exists_neutral_of_bracket (fun _ => neutral_of_isMember ih) bracket
        intro level within rest
        have deeper : level + 1 - 1 ≠ 0 := by omega
        rw [List.cons_append, List.append_assoc, List.singleton_append, balancedFrom_open,
          neutral (level + 1) (by omega), balancedFrom_close, if_neg deeper, add_sub_cancel_right,
          Option.map_map, Option.map_map]
        congr 1
        funext text
        simp

/-- Between the braces of an object the depth is left as it is. -/
theorem exists_neutral_of_isObject {text : List Char} (isObject : IsObject text) :
    ∃ inside, text = '{' :: (inside ++ ['}']) ∧ Neutral inside := by
  obtain ⟨depth, inside, rfl, bracket⟩ := isObject
  obtain ⟨inside, rfl, neutral⟩ :=
    exists_neutral_of_bracket (fun _ => neutral_of_isMember (neutral_of_isValue depth)) bracket
  exact ⟨inside, rfl, neutral⟩

/-- The scan of an object ends with its last brace. -/
theorem balancedFrom_isObject {text : List Char} (isObject : IsObject text) (rest : List Char) :
    balancedFrom ⟨0, false, false⟩ (text ++ rest) = some text := by
  obtain ⟨inside, rfl, neutral⟩ := exists_neutral_of_isObject isObject
  rw [List.cons_append, List.append_assoc, List.singleton_append, balancedFrom_open, zero_add,
    neutral 1 le_rfl, balancedFrom_close, if_pos (sub_self 1)]
  rfl

/-- The scan finds a part of the text. -/
theorem prefix_of_balancedFrom {scan : BraceScan} {text found : List Char}
    (balanced : balancedFrom scan text = some found) : found <+: text := by
  induction text generalizing scan found with
  | nil => cases balanced
  | cons c text ih =>
      have extend : ∀ {scan}, (balancedFrom scan text).map (c :: ·) = some found →
          found <+: c :: text := by
        intro scan later
        obtain ⟨inner, found, rfl⟩ := Option.map_eq_some_iff.mp later
        exact List.cons_prefix_cons.mpr ⟨rfl, ih found⟩
      unfold balancedFrom at balanced
      split_ifs at balanced
      · exact extend balanced
      · exact extend balanced
      · exact extend balanced
      · exact extend balanced
      · exact extend balanced
      · cases balanced
        exact ⟨text, rfl⟩
      · exact extend balanced
      · exact extend balanced

theorem dropWhile_brace {front : List Char} (noBrace : '{' ∉ front) (rest : List Char) :
    (front ++ '{' :: rest).dropWhile (· ≠ '{') = '{' :: rest := by
  have passed : ∀ c ∈ front, decide (c ≠ '{') = true := by
    intro c member
    refine decide_eq_true ?_
    rintro rfl
    exact noBrace member
  rw [List.dropWhile_append_of_pos passed]
  rfl

/-- The first brace of a text is that of the object. -/
theorem dropWhile_isObject {front text : List Char} (noBrace : '{' ∉ front)
    (isObject : IsObject text) (back : List Char) :
    (front ++ (text ++ back)).dropWhile (· ≠ '{') = text ++ back := by
  obtain ⟨depth, inside, rfl, -⟩ := isObject
  exact dropWhile_brace noBrace (inside ++ back)

/-- After a text without braces exactly the object is found. -/
theorem findBalancedJsonObject_isObject {front text : List Char} (noBrace : '{' ∉ front)
    (isObject : IsObject text) (back : List Char) :
    findBalancedJsonObject (front ++ (text ++ back)) = some text := by
  rw [findBalancedJsonObject, dropWhile_isObject noBrace isObject, balancedFrom_isObject isObject]

theorem findBalancedJsonObject_note :
    findBalancedJsonObject
        ("Found: ".toList ++ ("\x7b\"note\": [\"\x7d \\\" \\\\\", \x7b\x7d]\x7d".toList ++ ['}'])) =
      some "\x7b\"note\": [\"\x7d \\\" \\\\\", \x7b\x7d]\x7d".toList :=
  findBalancedJsonObject_isObject (by decide)
    (@isObject_of_scanOnce_nil .unlimited 30 _ _ rfl) ['}']

end BirrTrack.OcrService
