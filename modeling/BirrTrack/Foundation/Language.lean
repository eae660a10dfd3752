import BirrTrack.Foundation.Backtracking
import Mathlib.Data.List.TakeWhile

/-! # The words of a pattern

`Matches` says which words a pattern without boundaries can take, whatever a
backtracking matcher tries first. `run_eq_nil_iff` decides from it where such a
matcher fails, and `exec_eq_some_iff` where the leftmost match begins.
-/

namespace Backtracking

-- What holds of all characters of a text is decided along the text, not over all characters.
instance (priority := 2000) decidableOfText {property : Char → Prop} [DecidablePred property]
    (text : List Char) : Decidable (∀ c ∈ text, property c) :=
  List.decidableBAll property text

instance (priority := 2000) decidableOfNext {property : Char → Prop} [DecidablePred property]
    (next : Option Char) : Decidable (∀ c ∈ next, property c) :=
  Option.decidableForallMem next

end Backtracking

namespace Backtracking.Pattern

/-- A pattern takes this word; boundaries are not words. -/
def Matches : Pattern → List Char → Prop
  | empty, word => word = []
  | char accepts, word => ∃ c, accepts c = true ∧ word = [c]
  | boundary, _ => False
  | seq first second, word =>
      ∃ front back, word = front ++ back ∧ first.Matches front ∧ second.Matches back
  | alt first second, word => first.Matches word ∨ second.Matches word
  | star body, word => ∃ words : List (List Char),
      (∀ part ∈ words, part ≠ [] ∧ body.Matches part) ∧ word = words.flatten
  | group _ body, word => body.Matches word

/-- The pattern has no boundaries. -/
def Plain : Pattern → Prop
  | empty => True
  | char _ => True
  | boundary => False
  | seq first second => first.Plain ∧ second.Plain
  | alt first second => first.Plain ∧ second.Plain
  | star body => body.Plain
  | group _ body => body.Plain

theorem Plain.times {body : Pattern} (plain : body.Plain) (count : ℕ) :
    (times count body).Plain := by
  induction count with
  | zero => trivial
  | succ count ih => exact ⟨plain, ih⟩

theorem Plain.upTo {body : Pattern} (plain : body.Plain) (most : ℕ) : (upTo most body).Plain := by
  induction most with
  | zero => trivial
  | succ most ih => exact ⟨⟨plain, ih⟩, trivial⟩

/-- From one cursor to the other the pattern takes a word of its own. -/
def Takes (pattern : Pattern) (origin reached : Cursor) : Prop :=
  ∃ word, pattern.Matches word ∧ origin.rest = word ++ reached.rest ∧
    reached.before = word.reverse ++ origin.before

/-- Two words of a repetition make one. -/
theorem Matches.star_append {body : Pattern} {front back : List Char}
    (first : (star body).Matches front) (second : (star body).Matches back) :
    (star body).Matches (front ++ back) := by
  obtain ⟨words, all, rfl⟩ := first
  obtain ⟨words', all', rfl⟩ := second
  refine ⟨words ++ words', ?_, List.flatten_append.symm⟩
  intro part member
  rcases List.mem_append.mp member with left | right
  · exact all part left
  · exact all' part right

/-- A word of the body is a word of its repetition. -/
theorem Matches.star_single {body : Pattern} {word : List Char} (taken : body.Matches word) :
    (star body).Matches word := by
  by_cases none : word = []
  · exact ⟨[], by simp, none⟩
  · exact ⟨[word], by simpa using ⟨none, taken⟩, List.flatten_singleton.symm⟩

/-- Every match takes a word of the pattern. -/
theorem takes_of_mem_run (pattern : Pattern) (plain : pattern.Plain) {cursor final : Cursor}
    (member : final ∈ pattern.run cursor) : pattern.Takes cursor final := by
  induction pattern generalizing cursor final with
  | empty => rw [List.mem_singleton.mp member]; exact ⟨[], rfl, rfl, rfl⟩
  | char accepts =>
      obtain ⟨before, rest, groups⟩ := cursor
      cases rest with
      | nil => exact (List.not_mem_nil member).elim
      | cons c rest =>
          by_cases accepted : accepts c = true
          · rw [run_char_of_accepts accepted, List.mem_singleton] at member
            subst member
            exact ⟨[c], ⟨c, accepted, rfl⟩, rfl, rfl⟩
          · simp only [run, accepted, Bool.false_eq_true, ↓reduceIte, List.not_mem_nil] at member
  | boundary => exact plain.elim
  | seq first second ihFirst ihSecond =>
      obtain ⟨middle, reached, member⟩ := mem_run_seq.mp member
      obtain ⟨front, taken, rest, before⟩ := ihFirst plain.1 reached
      obtain ⟨back, taken', rest', before'⟩ := ihSecond plain.2 member
      refine ⟨front ++ back, ⟨front, back, rfl, taken, taken'⟩, ?_, ?_⟩
      · rw [rest, rest', List.append_assoc]
      · rw [before', before, List.reverse_append, List.append_assoc]
  | alt first second ihFirst ihSecond =>
      rcases List.mem_append.mp member with left | right
      · obtain ⟨word, taken, passed⟩ := ihFirst plain.1 left
        exact ⟨word, Or.inl taken, passed⟩
      · obtain ⟨word, taken, passed⟩ := ihSecond plain.2 right
        exact ⟨word, Or.inr taken, passed⟩
  | star body ih =>
      refine @repeated_relates (star body).Takes _ ?_ ?_ ?_ _ _ _ member
      · exact fun cursor => ⟨[], ⟨[], by simp, rfl⟩, rfl, rfl⟩
      · intro first second third front back
        obtain ⟨word, taken, rest, before⟩ := front
        obtain ⟨word', taken', rest', before'⟩ := back
        refine ⟨word ++ word', taken.star_append taken', ?_, ?_⟩
        · rw [rest, rest', List.append_assoc]
        · rw [before', before, List.reverse_append, List.append_assoc]
      · intro cursor next taken
        obtain ⟨word, taken, passed⟩ := ih plain taken
        exact ⟨word, taken.star_single, passed⟩
  | group index body ih =>
      obtain ⟨next, taken, rfl⟩ := List.mem_map.mp member
      have passed : body.Takes cursor next := ih plain taken
      exact passed

/-- Every word of the pattern is taken by some match. -/
theorem exists_mem_run_of_matches (pattern : Pattern) {before word rest : List Char}
    {groups : ℕ → Option Capture} (taken : pattern.Matches word) :
    ∃ groups', (⟨word.reverse ++ before, rest, groups'⟩ : Cursor) ∈
      pattern.run ⟨before, word ++ rest, groups⟩ := by
  induction pattern generalizing before word rest groups with
  | empty => rw [taken]; exact ⟨groups, List.mem_singleton_self _⟩
  | char accepts =>
      obtain ⟨c, accepted, rfl⟩ := taken
      refine ⟨groups, ?_⟩
      rw [List.singleton_append, run_char_of_accepts accepted]
      exact List.mem_singleton_self _
  | boundary => exact taken.elim
  | seq first second ihFirst ihSecond =>
      obtain ⟨front, back, rfl, taken, taken'⟩ := taken
      obtain ⟨groups₁, reached⟩ := @ihFirst before front (back ++ rest) groups taken
      obtain ⟨groups₂, member⟩ := @ihSecond (front.reverse ++ before) back rest groups₁ taken'
      refine ⟨groups₂, mem_run_seq.mpr ?_⟩
      simp only [List.append_assoc, List.reverse_append]
      exact ⟨_, reached, member⟩
  | alt first second ihFirst ihSecond =>
      rcases taken with taken | taken
      · obtain ⟨groups', member⟩ := @ihFirst before word rest groups taken
        exact ⟨groups', List.mem_append_left _ member⟩
      · obtain ⟨groups', member⟩ := @ihSecond before word rest groups taken
        exact ⟨groups', List.mem_append_right _ member⟩
  | star body ih =>
      obtain ⟨words, all, rfl⟩ := taken
      induction words generalizing before groups with
      | nil => exact ⟨groups, by rw [run_star]; exact List.mem_append_right _ (by simp)⟩
      | cons part words more =>
          obtain ⟨some, taken⟩ := all part List.mem_cons_self
          obtain ⟨groups₁, reached⟩ := @ih before part (words.flatten ++ rest) groups taken
          obtain ⟨groups₂, member⟩ := @more (part.reverse ++ before) groups₁
            fun other later => all other (List.mem_cons_of_mem part later)
          refine ⟨groups₂, ?_⟩
          rw [List.flatten_cons, List.append_assoc, run_star]
          refine List.mem_append_left _ (List.mem_flatMap.mpr ⟨_, reached, ?_⟩)
          have shorter : (words.flatten ++ rest).length <
              (part ++ (words.flatten ++ rest)).length := by
            rw [@List.length_append _ part]
            exact Nat.lt_add_of_pos_left (List.length_pos_iff.mpr some)
          rw [if_pos shorter, List.reverse_append, List.append_assoc]
          exact member
  | group index body ih =>
      obtain ⟨groups', member⟩ := @ih before word rest groups taken
      exact ⟨_, List.mem_map.mpr ⟨_, member, rfl⟩⟩

/-- A matcher fails where the rest of the text begins with no word of the pattern. -/
theorem run_eq_nil_iff {pattern : Pattern} (plain : pattern.Plain) {cursor : Cursor} :
    pattern.run cursor = [] ↔
      ∀ word rest, cursor.rest = word ++ rest → ¬ pattern.Matches word := by
  refine ⟨?_, ?_⟩
  · intro fails word rest split taken
    obtain ⟨before, text, groups⟩ := cursor
    obtain ⟨groups', member⟩ := @exists_mem_run_of_matches pattern before word rest groups taken
    rw [← split, fails] at member
    exact List.not_mem_nil member
  · intro none
    rw [List.eq_nil_iff_forall_not_mem]
    intro final member
    obtain ⟨word, taken, split, -⟩ := takes_of_mem_run pattern plain member
    exact none word final.rest split taken

/-- A plain pattern matches at a place exactly if a word of its language stands there. -/
theorem exists_first_iff {pattern : Pattern} (plain : pattern.Plain) {cursor : Cursor} :
    (∃ final, First pattern cursor final) ↔
      ∃ word rest, cursor.rest = word ++ rest ∧ pattern.Matches word := by
  have some : (∃ final, First pattern cursor final) ↔ pattern.run cursor ≠ [] := by
    cases found : pattern.run cursor with
    | nil => simp [First, found]
    | cons final others => simp [First, found]
  rw [some, Ne, run_eq_nil_iff plain]
  simp only [not_forall, not_not, exists_prop]

/-! ## Words of the derived patterns -/

/-- The words of a repeated class are the texts over the class. -/
theorem matches_star_char {accepts : Char → Bool} {word : List Char} :
    (star (char accepts)).Matches word ↔ ∀ c ∈ word, accepts c = true := by
  refine ⟨?_, ?_⟩
  · intro taken c member
    obtain ⟨words, all, rfl⟩ := taken
    obtain ⟨part, listed, member⟩ := List.mem_flatten.mp member
    obtain ⟨-, d, accepted, rfl⟩ := all part listed
    rwa [List.mem_singleton.mp member]
  · intro all
    refine ⟨word.map fun c => [c], ?_, by rw [← List.flatMap_def, List.flatMap_singleton']⟩
    intro part member
    obtain ⟨c, listed, rfl⟩ := List.mem_map.mp member
    exact ⟨List.cons_ne_nil _ _, c, all c listed, rfl⟩

/-- The words of a class a fixed number of times are the texts of that length over it. -/
theorem matches_times_char {accepts : Char → Bool} {count : ℕ} {word : List Char} :
    (times count (char accepts)).Matches word ↔
      word.length = count ∧ ∀ c ∈ word, accepts c = true := by
  induction count generalizing word with
  | zero =>
      rw [times, Matches, List.length_eq_zero_iff]
      refine ⟨fun none => ⟨none, by simp [none]⟩, And.left⟩
  | succ count ih =>
      rw [times, Matches]
      refine ⟨?_, ?_⟩
      · intro taken
        obtain ⟨front, back, rfl, ⟨c, accepted, rfl⟩, taken⟩ := taken
        obtain ⟨length, all⟩ := ih.mp taken
        refine ⟨by rw [List.singleton_append, List.length_cons, length], ?_⟩
        exact List.forall_mem_cons.mpr ⟨accepted, all⟩
      · intro conditions
        obtain ⟨length, all⟩ := conditions
        obtain ⟨c, word, rfl⟩ := List.exists_cons_of_length_eq_add_one length
        obtain ⟨accepted, all⟩ := List.forall_mem_cons.mp all
        exact ⟨[c], word, rfl, ⟨c, accepted, rfl⟩, ih.mpr ⟨Nat.succ.inj length, all⟩⟩

/-- With a bound, they are the texts up to that length. -/
theorem matches_upTo_char {accepts : Char → Bool} {most : ℕ} {word : List Char} :
    (upTo most (char accepts)).Matches word ↔
      word.length ≤ most ∧ ∀ c ∈ word, accepts c = true := by
  induction most generalizing word with
  | zero =>
      rw [upTo, Matches, Nat.le_zero, List.length_eq_zero_iff]
      refine ⟨fun none => ⟨none, by simp [none]⟩, And.left⟩
  | succ most ih =>
      rw [upTo, opt, Matches, Matches, Matches]
      refine ⟨?_, ?_⟩
      · intro taken
        rcases taken with ⟨front, back, rfl, ⟨c, accepted, rfl⟩, taken⟩ | rfl
        · obtain ⟨length, all⟩ := ih.mp taken
          refine ⟨by rw [List.singleton_append, List.length_cons]; omega, ?_⟩
          exact List.forall_mem_cons.mpr ⟨accepted, all⟩
        · exact ⟨Nat.zero_le _, by simp⟩
      · intro conditions
        obtain ⟨length, all⟩ := conditions
        cases word with
        | nil => exact Or.inr rfl
        | cons c word =>
            obtain ⟨accepted, all⟩ := List.forall_mem_cons.mp all
            exact Or.inl ⟨[c], word, rfl, ⟨c, accepted, rfl⟩,
              ih.mpr ⟨Nat.le_of_succ_le_succ length, all⟩⟩

/-- With two bounds, the texts between those lengths. -/
theorem matches_between_char {accepts : Char → Bool} {least most : ℕ} (ordered : least ≤ most)
    {word : List Char} :
    (between least most (char accepts)).Matches word ↔
      least ≤ word.length ∧ word.length ≤ most ∧ ∀ c ∈ word, accepts c = true := by
  rw [between, Matches]
  refine ⟨?_, ?_⟩
  · intro taken
    obtain ⟨front, back, rfl, first, second⟩ := taken
    obtain ⟨length, all⟩ := matches_times_char.mp first
    obtain ⟨length', all'⟩ := matches_upTo_char.mp second
    rw [List.length_append]
    refine ⟨by omega, by omega, List.forall_mem_append.mpr ⟨all, all'⟩⟩
  · intro conditions
    obtain ⟨low, high, all⟩ := conditions
    refine ⟨word.take least, word.drop least, (List.take_append_drop least word).symm,
      matches_times_char.mpr ⟨List.length_take_of_le low, ?_⟩,
      matches_upTo_char.mpr ⟨by rw [List.length_drop]; omega, ?_⟩⟩
    · exact fun c member => all c (List.mem_of_mem_take member)
    · exact fun c member => all c (List.mem_of_mem_drop member)

/-- With a lower bound only, the texts from that length on. -/
theorem matches_atLeast_char {accepts : Char → Bool} {least : ℕ} {word : List Char} :
    (atLeast least (char accepts)).Matches word ↔
      least ≤ word.length ∧ ∀ c ∈ word, accepts c = true := by
  rw [atLeast, Matches]
  refine ⟨?_, ?_⟩
  · intro taken
    obtain ⟨front, back, rfl, first, second⟩ := taken
    obtain ⟨length, all⟩ := matches_times_char.mp first
    refine ⟨by rw [List.length_append]; omega, ?_⟩
    exact List.forall_mem_append.mpr ⟨all, matches_star_char.mp second⟩
  · intro conditions
    obtain ⟨low, all⟩ := conditions
    refine ⟨word.take least, word.drop least, (List.take_append_drop least word).symm,
      matches_times_char.mpr ⟨List.length_take_of_le low, ?_⟩, matches_star_char.mpr ?_⟩
    · exact fun c member => all c (List.mem_of_mem_take member)
    · exact fun c member => all c (List.mem_of_mem_drop member)

/-- A word of a row of patterns is a word of the first and one of the others. -/
theorem matches_concat_cons {first : Pattern} {rest : List Pattern} {word : List Char} :
    (concat (first :: rest)).Matches word ↔
      ∃ front back, word = front ++ back ∧ first.Matches front ∧ (concat rest).Matches back := by
  cases rest with
  | nil =>
      refine ⟨fun taken => ⟨word, [], (List.append_nil word).symm, taken, rfl⟩, ?_⟩
      intro taken
      obtain ⟨front, back, rfl, taken, rfl⟩ := taken
      rwa [List.append_nil]
  | cons second rest => exact Iff.rfl

theorem plain_wordI (word : String) : (wordI word).Plain := by
  rw [wordI]
  induction word.toList with
  | nil => trivial
  | cons c letters ih =>
      cases letters with
      | nil => trivial
      | cons d letters => exact ⟨trivial, ih⟩

/-- A word without regard to case takes its spellings. -/
theorem matches_wordI {word : String} {letters : List Char} :
    (wordI word).Matches letters ↔
      letters.map Char.toLower = word.toList.map Char.toLower := by
  rw [wordI]
  induction word.toList generalizing letters with
  | nil =>
      rw [List.map_nil, List.map_nil, List.map_eq_nil_iff]
      exact Iff.rfl
  | cons c word ih =>
      rw [List.map_cons, List.map_cons, matches_concat_cons]
      refine ⟨?_, ?_⟩
      · intro taken
        obtain ⟨front, back, rfl, ⟨d, accepted, rfl⟩, taken⟩ := taken
        rw [List.singleton_append, List.map_cons, of_decide_eq_true accepted, ih.mp taken]
      · intro same
        obtain ⟨d, letters, rfl, head, tail⟩ := List.map_eq_cons_iff.mp same
        exact ⟨[d], letters, rfl, ⟨d, decide_eq_true head, rfl⟩, ih.mpr tail⟩

/-! ## Patterns that try the longest word first -/

/-- Of two matches the one that is tried first takes more. -/
def LongestFirst (pattern : Pattern) : Prop :=
  ∀ cursor, (pattern.run cursor).Pairwise fun first second =>
    first.rest.length < second.rest.length

/-- Every match takes this number of characters. -/
def FixedWidth (pattern : Pattern) (width : ℕ) : Prop :=
  ∀ cursor, ∀ next ∈ pattern.run cursor, cursor.rest.length = next.rest.length + width

/-- No match gives characters back. -/
theorem length_rest_le {pattern : Pattern} {cursor next : Cursor}
    (member : next ∈ pattern.run cursor) : next.rest.length ≤ cursor.rest.length := by
  obtain ⟨word, split, -⟩ := run_passes pattern pattern.over_true member
  rw [split, List.length_append]
  exact Nat.le_add_left _ _

/-- A match of a pattern without the empty word takes something. -/
theorem length_rest_lt {pattern : Pattern} (plain : pattern.Plain) (some : ¬ pattern.Matches [])
    {cursor next : Cursor} (member : next ∈ pattern.run cursor) :
    next.rest.length < cursor.rest.length := by
  obtain ⟨word, taken, split, -⟩ := takes_of_mem_run pattern plain member
  have nonempty : word ≠ [] := fun none => some (none ▸ taken)
  rw [split, List.length_append]
  exact Nat.lt_add_of_pos_left (List.length_pos_iff.mpr nonempty)

section Greedy

variable {first second body : Pattern} {width width' : ℕ}

theorem longestFirst_empty : LongestFirst empty := fun _ => List.pairwise_singleton _ _

theorem fixedWidth_empty : FixedWidth empty 0 := by
  intro cursor next member
  rw [List.mem_singleton.mp member]
  rfl

/-- A class has no match or one, which takes one character. -/
theorem run_char_eq (accepts : Char → Bool) (cursor : Cursor) :
    (char accepts).run cursor = [] ∨ ∃ next, (char accepts).run cursor = [next] ∧
      cursor.rest.length = next.rest.length + 1 := by
  obtain ⟨before, rest, groups⟩ := cursor
  cases rest with
  | nil => exact Or.inl rfl
  | cons c rest =>
      by_cases accepted : accepts c = true
      · exact Or.inr ⟨_, run_char_of_accepts accepted, rfl⟩
      · left
        apply run_char_eq_nil
        intro d head
        cases head
        simpa using accepted

theorem longestFirst_char (accepts : Char → Bool) : LongestFirst (char accepts) := by
  intro cursor
  rcases run_char_eq accepts cursor with none | ⟨next, one, -⟩
  · rw [none]
    exact List.Pairwise.nil
  · rw [one]
    exact List.pairwise_singleton _ _

theorem fixedWidth_char (accepts : Char → Bool) : FixedWidth (char accepts) 1 := by
  intro cursor next member
  rcases run_char_eq accepts cursor with none | ⟨other, one, length⟩
  · rw [none] at member
    exact (List.not_mem_nil member).elim
  · rw [one, List.mem_singleton] at member
    rw [member, length]

/-- Widths add up. -/
theorem FixedWidth.seq (front : FixedWidth first width) (back : FixedWidth second width') :
    FixedWidth (seq first second) (width + width') := by
  intro cursor next member
  obtain ⟨middle, reached, member⟩ := mem_run_seq.mp member
  rw [front cursor middle reached, back middle next member]
  omega

/-- A front of fixed width can match in one way only. -/
theorem LongestFirst.fixed_seq (front : LongestFirst first) (fixed : FixedWidth first width)
    (back : LongestFirst second) : LongestFirst (.seq first second) := by
  intro cursor
  rw [run_seq, List.pairwise_flatMap]
  refine ⟨fun middle _ => back middle, ?_⟩
  refine (front cursor).imp_of_mem fun member member' less => ?_
  have long := fixed cursor _ member
  have short := fixed cursor _ member'
  omega

/-- A sequence tries its longest word first if its second part has a fixed width. -/
theorem LongestFirst.seq_fixed (front : LongestFirst first) (back : LongestFirst second)
    (fixed : FixedWidth second width) : LongestFirst (.seq first second) := by
  intro cursor
  rw [run_seq, List.pairwise_flatMap]
  refine ⟨fun middle _ => back middle, ?_⟩
  refine (front cursor).imp fun less x taken y taken' => ?_
  have long := fixed _ x taken
  have short := fixed _ y taken'
  omega

/-- So does a choice, if every word of the first branch is longer than every word of the second. -/
theorem LongestFirst.alt (front : LongestFirst first) (back : LongestFirst second)
    (cross : ∀ cursor, ∀ x ∈ first.run cursor, ∀ y ∈ second.run cursor,
      x.rest.length < y.rest.length) : LongestFirst (.alt first second) := by
  intro cursor
  rw [run_alt, List.pairwise_append]
  exact ⟨front cursor, back cursor, cross cursor⟩

/-- So does an optional pattern without the empty word. -/
theorem LongestFirst.opt (longest : LongestFirst body) (plain : body.Plain)
    (some : ¬ body.Matches []) : LongestFirst (.opt body) := by
  refine longest.alt longestFirst_empty ?_
  intro cursor x taken y taken'
  rw [List.mem_singleton.mp taken']
  exact length_rest_lt plain some taken

/-- A repeated class takes as much as it can first. -/
theorem longestFirst_star_char (accepts : Char → Bool) : LongestFirst (star (char accepts)) := by
  intro cursor
  generalize length : cursor.rest.length = count
  induction count generalizing cursor with
  | zero =>
      have none : (char accepts).run cursor = [] :=
        run_char_eq_nil (by rw [List.length_eq_zero_iff.mp length]; simp)
      rw [run_star_of_body_nil none]
      exact List.pairwise_singleton _ _
  | succ count ih =>
      rw [run_star]
      rcases run_char_eq accepts cursor with none | ⟨next, one, width⟩
      · rw [none]
        exact List.pairwise_singleton _ _
      · have shorter : next.rest.length < cursor.rest.length := by omega
        rw [one, List.flatMap_singleton, if_pos shorter, List.pairwise_append]
        refine ⟨ih next (by omega), List.pairwise_singleton _ _, ?_⟩
        intro later taken stopped same
        rw [List.mem_singleton.mp same]
        exact Nat.lt_of_le_of_lt (length_rest_le taken) shorter

/-- A literal word has one match, of its own length. -/
theorem word_greedy (letters : List Char) :
    LongestFirst (concat (letters.map litI)) ∧
      FixedWidth (concat (letters.map litI)) letters.length := by
  induction letters with
  | nil => exact ⟨longestFirst_empty, fixedWidth_empty⟩
  | cons c letters ih =>
      cases letters with
      | nil => exact ⟨longestFirst_char _, fixedWidth_char _⟩
      | cons d letters =>
          refine ⟨(longestFirst_char _).fixed_seq (fixedWidth_char _) ih.1, ?_⟩
          have width := (fixedWidth_char fun e => e.toLower = c.toLower).seq ih.2
          rw [Nat.add_comm] at width
          exact width

/-- Where the front tries the longest word first, the match of a sequence has the longest
front after which the back can match. -/
theorem First.longest (longest : LongestFirst first) {cursor final : Cursor}
    (whole : First (.seq first second) cursor final) :
    ∃ middle ∈ first.run cursor, First second middle final ∧
      ∀ other ∈ first.run cursor, other.rest.length < middle.rest.length →
        second.run other = [] := by
  have descending := longest cursor
  rw [First, run_seq] at whole
  generalize first.run cursor = middles at whole descending
  induction middles with
  | nil => cases whole
  | cons middle middles ih =>
      obtain ⟨above, descending⟩ := List.pairwise_cons.mp descending
      rw [List.flatMap_cons, List.head?_append] at whole
      cases here : (second.run middle).head? with
      | none =>
          rw [here, Option.none_or] at whole
          obtain ⟨later, member, found, fails⟩ := ih whole descending
          refine ⟨later, List.mem_cons_of_mem middle member, found, ?_⟩
          intro other listed less
          rcases List.mem_cons.mp listed with rfl | listed
          · exact List.head?_eq_none_iff.mp here
          · exact fails other listed less
      | some reached =>
          rw [here, Option.some_or] at whole
          refine ⟨middle, List.mem_cons_self, here.trans whole, ?_⟩
          intro other listed less
          rcases List.mem_cons.mp listed with rfl | listed
          · exact absurd less (Nat.lt_irrefl _)
          · exact absurd less (Nat.lt_asymm (above other listed))

/-- The first match of a group is the first match of its body, captured. -/
theorem First.exists_of_group {index : ℕ} {body : Pattern} {cursor final : Cursor}
    (whole : First (.group index body) cursor final) :
    ∃ next, First body cursor next ∧ final = cursor.capture next index := by
  rw [First, run_group, List.head?_map, Option.map_eq_some_iff] at whole
  obtain ⟨next, front, same⟩ := whole
  exact ⟨next, front, same.symm⟩

/-- The first match of a choice is the first match of one of its branches. -/
theorem First.of_alt {cursor final : Cursor} (found : First (.alt first second) cursor final) :
    First first cursor final ∨ First second cursor final := by
  rw [First, run_alt, List.head?_append, Option.or_eq_some_iff] at found
  exact found.imp_right And.right

/-- A word of a class extends to all of the class that stands there. -/
theorem exists_longest_run {accepts : Char → Bool} {word rest : List Char}
    (all : ∀ c ∈ word, accepts c = true) :
    ∃ run after, word ++ rest = run ++ after ∧ (∀ c ∈ run, accepts c = true) ∧
      word.length ≤ run.length ∧ ∀ c ∈ after.head?, accepts c = false := by
  refine ⟨(word ++ rest).takeWhile accepts, (word ++ rest).dropWhile accepts,
    List.takeWhile_append_dropWhile.symm, fun c => List.mem_takeWhile_imp, ?_, ?_⟩
  · rw [List.takeWhile_append_of_pos all, List.length_append]
    exact Nat.le_add_right _ _
  · intro c head
    have rejected := List.head?_dropWhile_not accepts (word ++ rest)
    rw [Option.mem_def.mp head] at rejected
    simpa using rejected

/-- Of two splits of a text the shorter front begins the longer one. -/
theorem exists_between {α : Type*} {front back front' back' : List α}
    (same : front ++ back = front' ++ back') (le : front.length ≤ front'.length) :
    ∃ between, front' = front ++ between ∧ back = between ++ back' := by
  obtain ⟨between, rfl⟩ : front <+: front' :=
    List.prefix_of_prefix_length_le (List.prefix_append _ _) ⟨back', same.symm⟩ le
  rw [List.append_assoc] at same
  exact ⟨between, rfl, List.append_cancel_left same⟩

/-- Of two splits of a list the one that goes on to the first rejected element has the longer
front. -/
theorem length_le_of_stops {accepts : Char → Bool} {word rest word' rest' : List Char}
    (same : word ++ rest = word' ++ rest') (all : ∀ c ∈ word, accepts c = true)
    (stops : ∀ c ∈ rest'.head?, accepts c = false) : word.length ≤ word'.length := by
  by_contra longer
  obtain ⟨more, rfl, rfl⟩ := exists_between same.symm (Nat.le_of_not_le longer)
  cases more with
  | nil => exact longer (by rw [List.append_nil])
  | cons c more =>
      have accepted := all c (List.mem_append_right _ List.mem_cons_self)
      rw [stops c rfl] at accepted
      cases accepted

/-- A greedy class with a least number takes every character of it that is there. -/
theorem First.atLeast_char {accepts : Char → Bool} {least : ℕ} {cursor final : Cursor}
    (first : First (atLeast least (char accepts)) cursor final) :
    ∃ word, cursor.rest = word ++ final.rest ∧ (∀ c ∈ word, accepts c = true) ∧
      least ≤ word.length ∧ ∀ c ∈ final.rest.head?, accepts c = false := by
  obtain ⟨before, text, groups⟩ := cursor
  have plain : (atLeast least (char accepts)).Plain :=
    ⟨@Plain.times (char accepts) trivial least, trivial⟩
  obtain ⟨word, taken, split, -⟩ := takes_of_mem_run _ plain (List.mem_of_head? first)
  obtain ⟨low, all⟩ := matches_atLeast_char.mp taken
  obtain ⟨run, after, whole, every, longer, stops⟩ := @exists_longest_run accepts _ final.rest all
  obtain rfl : text = run ++ after := split.trans whole
  have long := low.trans longer
  have greedy := @first_atLeast_char accepts before _ _ groups _ long every stops
  obtain rfl : _ = final := Option.some.inj (greedy.symm.trans first)
  exact ⟨run, rfl, every, long, stops⟩

/-- A bounded greedy class stops early only where the class ends. -/
theorem First.between_char {accepts : Char → Bool} {least most : ℕ} (ordered : least ≤ most)
    {cursor final : Cursor} (first : First (between least most (char accepts)) cursor final) :
    ∃ word, cursor.rest = word ++ final.rest ∧ (∀ c ∈ word, accepts c = true) ∧
      least ≤ word.length ∧ word.length ≤ most ∧
        (word.length = most ∨ ∀ c ∈ final.rest.head?, accepts c = false) := by
  obtain ⟨before, text, groups⟩ := cursor
  have plain : (between least most (char accepts)).Plain :=
    ⟨@Plain.times (char accepts) trivial least, @Plain.upTo (char accepts) trivial _⟩
  obtain ⟨word, taken, split, -⟩ := takes_of_mem_run _ plain (List.mem_of_head? first)
  obtain ⟨low, -, all⟩ := (matches_between_char ordered).mp taken
  obtain ⟨run, after, whole, every, longer, stops⟩ := @exists_longest_run accepts _ final.rest all
  obtain rfl : text = run.take most ++ (run.drop most ++ after) := by
    rw [← List.append_assoc, List.take_append_drop]
    exact split.trans whole
  have ends : (run.take most).length = most ∨
      ∀ c ∈ (run.drop most ++ after).head?, accepts c = false := by
    rw [List.length_take]
    by_cases full : most ≤ run.length
    · exact Or.inl (Nat.min_eq_left full)
    · right
      rw [List.drop_eq_nil_of_le (Nat.le_of_lt (Nat.lt_of_not_le full)), List.nil_append]
      exact stops
  have fits : least ≤ (run.take most).length ∧ (run.take most).length ≤ most := by
    rw [List.length_take]
    omega
  have taken : ∀ c ∈ run.take most, accepts c = true :=
    fun c member => every c (List.mem_of_mem_take member)
  have greedy := @first_between_char accepts before _ _ groups least most fits.1 fits.2 taken ends
  obtain rfl : _ = final := Option.some.inj (greedy.symm.trans first)
  exact ⟨_, rfl, taken, fits.1, fits.2, ends⟩

end Greedy

/-! ## The leftmost match -/

/-- A scan finds the first match at the leftmost place where there is one. -/
theorem scan_eq_some_iff {pattern : Pattern} {before text : List Char} {final : Cursor} :
    pattern.scan before text = some final ↔
      ∃ front back, text = front ++ back ∧
        First pattern (.start (front.reverse ++ before) back) final ∧
          ∀ earlier later, text = earlier ++ later → earlier.length < front.length →
            pattern.run (.start (earlier.reverse ++ before) later) = [] := by
  induction text generalizing before with
  | nil =>
      rw [scan]
      refine ⟨fun found => ⟨[], [], rfl, found, fun _ _ _ impossible => by cases impossible⟩, ?_⟩
      intro conditions
      obtain ⟨front, back, split, found, -⟩ := conditions
      obtain ⟨rfl, rfl⟩ := List.append_eq_nil_iff.mp split.symm
      exact found
  | cons c rest ih =>
      rw [scan]
      cases here : pattern.run (.start before (c :: rest)) with
      | cons found others =>
          rw [List.head?_cons, Option.some_or]
          refine ⟨?_, ?_⟩
          · intro same
            cases same
            exact ⟨[], c :: rest, rfl, List.head?_eq_some_iff.mpr ⟨others, here⟩,
              fun _ _ _ impossible => by cases impossible⟩
          · intro conditions
            obtain ⟨front, back, split, first, earliest⟩ := conditions
            cases front with
            | nil =>
                obtain rfl : c :: rest = back := split
                exact (congrArg List.head? here).symm.trans first
            | cons d front =>
                have fails := earliest [] (c :: rest) rfl (Nat.succ_pos _)
                exact absurd (here.symm.trans fails) (List.cons_ne_nil _ _)
      | nil =>
          rw [List.head?_nil, Option.none_or, ih]
          refine ⟨?_, ?_⟩
          · intro conditions
            obtain ⟨front, back, rfl, first, earliest⟩ := conditions
            refine ⟨c :: front, back, rfl, ?_, ?_⟩
            · rwa [List.reverse_cons, List.append_assoc]
            · intro earlier later split shorter
              cases earlier with
              | nil =>
                  obtain rfl : c :: (front ++ back) = later := split
                  exact here
              | cons d earlier =>
                  obtain ⟨rfl, tail⟩ := List.cons.inj split
                  rw [List.reverse_cons, List.append_assoc]
                  exact earliest earlier later tail (Nat.lt_of_succ_lt_succ shorter)
          · intro conditions
            obtain ⟨front, back, split, first, earliest⟩ := conditions
            cases front with
            | nil =>
                obtain rfl : c :: rest = back := split
                exact absurd (here.symm ▸ first : [].head? = some final) (by simp)
            | cons d front =>
                obtain ⟨rfl, rfl⟩ := List.cons.inj split
                refine ⟨front, back, rfl, ?_, ?_⟩
                · rwa [List.reverse_cons, List.append_assoc] at first
                · intro earlier later same shorter
                  have fails := earliest (c :: earlier) later (by rw [same]; rfl)
                    (Nat.succ_lt_succ shorter)
                  rwa [List.reverse_cons, List.append_assoc] at fails

/-- The leftmost match of a pattern without boundaries, in terms of its words. -/
theorem exec_eq_some_iff {pattern : Pattern} (plain : pattern.Plain) {text : List Char}
    {final : Cursor} :
    pattern.exec text = some final ↔
      ∃ front back, text = front ++ back ∧ First pattern (.start front.reverse back) final ∧
        ∀ earlier later, text = earlier ++ later → earlier.length < front.length →
          ∀ word rest, later = word ++ rest → ¬ pattern.Matches word := by
  rw [exec, scan_eq_some_iff]
  simp only [List.append_nil, run_eq_nil_iff plain, Cursor.start]

end Backtracking.Pattern
