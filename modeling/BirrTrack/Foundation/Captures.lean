import BirrTrack.Foundation.Language

/-! # Matches and their captures

Which cursors a pattern reaches, exactly: the word that was taken, what is left of the
text and what the groups recorded. For patterns that try the longest match first,
`LongestFirst.length_le` says that the match found first is the longest one.
-/

namespace Backtracking

/-- No word character stands on this side of a place. -/
def Clear (side : List Char) : Prop := ∀ c ∈ side.head?, isWordChar c = false

instance (side : List Char) : Decidable (Clear side) :=
  inferInstanceAs (Decidable (∀ c ∈ side.head?, isWordChar c = false))

theorem clear_nil : Clear [] := fun _ absent => nomatch absent

/-- A side is clear if its nearest character is no word character. -/
theorem clear_cons {c : Char} {side : List Char} :
    Clear (c :: side) ↔ isWordChar c = false := by
  simp only [Clear, List.head?_cons, Option.mem_some_iff, forall_eq']

/-- So the test that the engine makes at a side is `Clear`. -/
theorem any_head?_eq_false_iff {side : List Char} :
    side.head?.any isWordChar = false ↔ Clear side := by
  cases side with
  | nil => exact iff_of_true rfl clear_nil
  | cons c side => rw [clear_cons]; rfl

/-- Before a word character there is a boundary where none precedes it. -/
theorem atBoundary_before {before rest : List Char} {c : Char} (word : isWordChar c = true) :
    atBoundary before (c :: rest) = true ↔ Clear before := by
  rw [← any_head?_eq_false_iff, atBoundary, List.head?_cons, Option.any_some, word, Bool.bne_true,
    Bool.not_eq_true']

/-- After a word character there is a boundary exactly before a clear rest. -/
theorem atBoundary_after {before rest : List Char} {c : Char} (word : isWordChar c = true) :
    atBoundary (c :: before) rest = true ↔ Clear rest := by
  rw [← any_head?_eq_false_iff, atBoundary, List.head?_cons, Option.any_some, word, Bool.true_bne,
    Bool.not_eq_true']

/-- What one class rejects in the other, the other rejects in the first. -/
theorem eq_false_of_apart {accepts rejects : Char → Bool}
    (apart : ∀ c, accepts c = true → rejects c = false) {c : Char} (rejected : rejects c = true) :
    accepts c = false := by
  by_contra accepted
  rw [apart c (by simpa only [Bool.not_eq_false] using accepted)] at rejected
  cases rejected

theorem stops_cons {accepts : Char → Bool} {c : Char} {rest : List Char}
    (rejected : accepts c = false) : ∀ d ∈ (c :: rest).head?, accepts d = false := by
  intro d first
  obtain rfl : c = d := Option.some.inj first
  exact rejected

/-- A run that stops before `rest` stops before a front without such characters as well. -/
theorem stops_append {accepts : Char → Bool} {front rest : List Char}
    (rejected : ∀ c ∈ front, accepts c = false) (stops : ∀ c ∈ rest.head?, accepts c = false) :
    ∀ d ∈ (front ++ rest).head?, accepts d = false := by
  cases front with
  | nil => exact stops
  | cons c front => exact stops_cons (rejected c List.mem_cons_self)

/-- A run stops before a front that has none of its characters. -/
theorem stops_of_ne_nil {accepts : Char → Bool} {front rest : List Char} (some : front ≠ [])
    (rejected : ∀ c ∈ front, accepts c = false) :
    ∀ d ∈ (front ++ rest).head?, accepts d = false := by
  obtain ⟨c, front, rfl⟩ := List.exists_cons_of_ne_nil some
  exact stops_cons (rejected c List.mem_cons_self)

/-- Two splits of a text at the end of a class of characters are the same. -/
theorem split_unique {accepts : Char → Bool} {word rest word' rest' : List Char}
    (same : word ++ rest = word' ++ rest') (all : ∀ c ∈ word, accepts c = true)
    (all' : ∀ c ∈ word', accepts c = true) (stops : ∀ c ∈ rest.head?, accepts c = false)
    (stops' : ∀ c ∈ rest'.head?, accepts c = false) : word = word' ∧ rest = rest' := by
  have le := Pattern.length_le_of_stops same all stops'
  have ge := Pattern.length_le_of_stops same.symm all' stops
  exact List.append_inj same (Nat.le_antisymm le ge)

/-! ## Runs of a class -/

/-- Runs of a class, each with the mark that ends it, and a last run. -/
def joined : List (List Char × Char) → List Char → List Char
  | [], last => last
  | (run, mark) :: tokens, last => run ++ mark :: joined tokens last

section Runs

variable {accepts : Char → Bool} {tokens : List (List Char × Char)} {last front word : List Char}

/-- The tokens are runs of the class with marks outside it. -/
def Tokens (accepts : Char → Bool) (tokens : List (List Char × Char)) : Prop :=
  ∀ token ∈ tokens, (∀ c ∈ token.1, accepts c = true) ∧ accepts token.2 = false

/-- What begins inside the class, but not inside a run, begins where a run does. -/
theorem exists_suffix_of_joined (runs : Tokens accepts tokens) (all : ∀ c ∈ last, accepts c = true)
    (begins : ∃ c tail, word = c :: tail ∧ accepts c = true)
    (apart : ∀ c ∈ front.getLast?, accepts c = false) (split : joined tokens last = front ++ word) :
    ∃ todo, todo <:+ tokens ∧ word = joined todo last := by
  obtain ⟨c, tail, rfl, accepted⟩ := begins
  induction tokens generalizing front with
  | nil =>
      obtain rfl : front = [] := by
        rcases List.eq_nil_or_concat front with rfl | ⟨front, d, rfl⟩
        · rfl
        · have inside := all d (by rw [show last = _ from split]; simp)
          rw [apart d (by simp)] at inside
          cases inside
      exact ⟨[], List.suffix_rfl, split.symm⟩
  | cons token tokens ih =>
      obtain ⟨run, mark⟩ := token
      obtain ⟨ofRun, notMark⟩ := runs (run, mark) List.mem_cons_self
      rcases List.eq_nil_or_concat front with rfl | ⟨front, d, rfl⟩
      · exact ⟨_, List.suffix_rfl, split.symm⟩
      · have later : run.length ≤ front.length := by
          by_contra within
          obtain ⟨between, same, -⟩ := Pattern.exists_between split.symm (by
            rw [List.concat_eq_append, List.length_append, List.length_singleton]
            omega)
          have inside := ofRun d (by rw [same]; simp)
          rw [apart d (by simp)] at inside
          cases inside
        obtain ⟨between, same, rest⟩ := Pattern.exists_between split (by
          rw [List.concat_eq_append, List.length_append]
          omega)
        cases between with
        | nil =>
            have exact := congrArg List.length same
            rw [List.concat_eq_append, List.length_append, List.length_singleton,
              List.append_nil] at exact
            omega
        | cons e between =>
            obtain ⟨rfl, inner⟩ := List.cons.inj rest
            obtain ⟨todo, suffix, reached⟩ := @ih between
              (fun token member => runs token (List.mem_cons_of_mem _ member)) (by
                intro x final
                apply apart x
                rw [same, List.getLast?_append, List.getLast?_cons, Option.mem_def.mp final]
                rfl) inner
            exact ⟨todo, suffix.trans (List.suffix_cons _ _), reached⟩

end Runs

namespace Pattern

/-! ## Reached cursors -/

/-- The pattern records nothing. -/
def Silent : Pattern → Prop
  | empty => True
  | char _ => True
  | boundary => True
  | seq first second => first.Silent ∧ second.Silent
  | alt first second => first.Silent ∧ second.Silent
  | star body => body.Silent
  | group _ _ => False

/-- Repeating a pattern adds no groups. -/
theorem Silent.times {body : Pattern} (silent : body.Silent) (count : ℕ) :
    (times count body).Silent := by
  induction count with
  | zero => trivial
  | succ count ih => exact ⟨silent, ih⟩

/-- Nor does repeating it up to a bound. -/
theorem Silent.upTo {body : Pattern} (silent : body.Silent) (most : ℕ) :
    (upTo most body).Silent := by
  induction most with
  | zero => trivial
  | succ most ih => exact ⟨⟨silent, ih⟩, trivial⟩

theorem silent_wordI (word : String) : (wordI word).Silent := by
  rw [wordI]
  induction word.toList with
  | nil => trivial
  | cons c letters ih =>
      cases letters with
      | nil => trivial
      | cons d letters => exact ⟨trivial, ih⟩

/-- A pattern without groups leaves the groups as they were. -/
theorem groups_of_mem_run {pattern : Pattern} (silent : pattern.Silent) {cursor final : Cursor}
    (member : final ∈ pattern.run cursor) : final.groups = cursor.groups := by
  induction pattern generalizing cursor final with
  | empty => rw [List.mem_singleton.mp member]
  | char accepts =>
      obtain ⟨before, rest, groups⟩ := cursor
      cases rest with
      | nil => exact (List.not_mem_nil member).elim
      | cons c rest =>
          by_cases accepted : accepts c = true
          · rw [run_char_of_accepts accepted, List.mem_singleton] at member
            rw [member]
          · simp only [run, accepted, Bool.false_eq_true, ↓reduceIte, List.not_mem_nil] at member
  | boundary =>
      simp only [run] at member
      split at member
      · rw [List.mem_singleton.mp member]
      · exact (List.not_mem_nil member).elim
  | seq first second ihFirst ihSecond =>
      obtain ⟨middle, reached, member⟩ := mem_run_seq.mp member
      rw [ihSecond silent.2 member, ihFirst silent.1 reached]
  | alt first second ihFirst ihSecond =>
      rcases List.mem_append.mp member with left | right
      · exact ihFirst silent.1 left
      · exact ihSecond silent.2 right
  | star body ih =>
      refine (@repeated_relates (fun first second => second.groups = first.groups) _ ?_ ?_ ?_ _ _
        _ member)
      · exact fun _ => rfl
      · exact fun front back => back.trans front
      · exact fun _ _ taken => ih silent taken
  | group index body ih => exact silent.elim

/-- A pattern of words alone reaches the cursors after its words. -/
theorem mem_run_iff {pattern : Pattern} (plain : pattern.Plain) (silent : pattern.Silent)
    {before text : List Char} {groups : ℕ → Option Capture} {final : Cursor} :
    final ∈ pattern.run ⟨before, text, groups⟩ ↔ ∃ word rest, text = word ++ rest ∧
      pattern.Matches word ∧ final = ⟨word.reverse ++ before, rest, groups⟩ := by
  refine ⟨?_, ?_⟩
  · intro member
    obtain ⟨word, taken, rest, passed⟩ := takes_of_mem_run pattern plain member
    have kept := groups_of_mem_run silent member
    obtain ⟨before', rest', groups'⟩ := final
    simp only at rest passed kept
    exact ⟨word, rest', rest, taken, by rw [passed, kept]⟩
  · intro found
    obtain ⟨word, rest, rfl, taken, rfl⟩ := found
    obtain ⟨groups', member⟩ := @exists_mem_run_of_matches pattern before word rest groups taken
    obtain rfl : groups' = groups := groups_of_mem_run silent member
    exact member

/-- A group records the word that its pattern takes. -/
theorem mem_run_group_iff {pattern : Pattern} (plain : pattern.Plain) (silent : pattern.Silent)
    {index : ℕ} {before text : List Char} {groups : ℕ → Option Capture} {final : Cursor} :
    final ∈ (group index pattern).run ⟨before, text, groups⟩ ↔ ∃ word rest, text = word ++ rest ∧
      pattern.Matches word ∧
        final = ⟨word.reverse ++ before, rest,
          Function.update groups index (some ⟨before, word⟩)⟩ := by
  have captured : ∀ word rest, text = word ++ rest →
      (⟨before, text, groups⟩ : Cursor).capture ⟨word.reverse ++ before, rest, groups⟩ index =
        ⟨word.reverse ++ before, rest, Function.update groups index (some ⟨before, word⟩)⟩ := by
    intro word rest split
    simp only [Cursor.capture, split, List.length_append, Nat.add_sub_cancel, List.take_left]
  rw [run_group, List.mem_map]
  refine ⟨?_, ?_⟩
  · intro found
    obtain ⟨next, member, rfl⟩ := found
    obtain ⟨word, rest, split, taken, rfl⟩ := (mem_run_iff plain silent).mp member
    exact ⟨word, rest, split, taken, captured word rest split⟩
  · intro found
    obtain ⟨word, rest, split, taken, rfl⟩ := found
    exact ⟨_, (mem_run_iff plain silent).mpr ⟨word, rest, split, taken, rfl⟩,
      captured word rest split⟩

/-- A boundary takes nothing, and holds or fails. -/
theorem mem_run_boundary {cursor final : Cursor} :
    final ∈ boundary.run cursor ↔
      final = cursor ∧ atBoundary cursor.before cursor.rest = true := by
  simp only [run]
  split
  next edge => simp only [List.mem_singleton, edge, and_true]
  next inside => simp only [List.not_mem_nil, inside, Bool.false_eq_true, and_false]

/-- An optional pattern takes its word or nothing. -/
theorem mem_run_opt {body : Pattern} {cursor final : Cursor} :
    final ∈ (opt body).run cursor ↔ final ∈ body.run cursor ∨ final = cursor := by
  rw [run_opt, List.mem_append, List.mem_singleton]

/-- A class takes one character of the class. -/
theorem mem_run_char_iff {accepts : Char → Bool} {before text : List Char}
    {groups : ℕ → Option Capture} {final : Cursor} :
    final ∈ (char accepts).run ⟨before, text, groups⟩ ↔ ∃ c rest, text = c :: rest ∧
      accepts c = true ∧ final = ⟨c :: before, rest, groups⟩ := by
  rw [@mem_run_iff (char accepts) trivial trivial]
  refine ⟨?_, ?_⟩
  · intro found
    obtain ⟨-, rest, split, ⟨c, accepted, rfl⟩, reached⟩ := found
    exact ⟨c, rest, split, accepted, reached⟩
  · intro found
    obtain ⟨c, rest, split, accepted, reached⟩ := found
    exact ⟨[c], rest, split, ⟨c, accepted, rfl⟩, reached⟩

/-- Some characters of a class. -/
theorem mem_run_plus {accepts : Char → Bool} {before text : List Char}
    {groups : ℕ → Option Capture} {final : Cursor} :
    final ∈ (plus (char accepts)).run ⟨before, text, groups⟩ ↔ ∃ word rest, text = word ++ rest ∧
      word ≠ [] ∧ (∀ c ∈ word, accepts c = true) ∧
        final = ⟨word.reverse ++ before, rest, groups⟩ := by
  have plain : (plus (char accepts)).Plain := ⟨@Plain.times (char accepts) trivial 1, trivial⟩
  have silent : (plus (char accepts)).Silent := ⟨@Silent.times (char accepts) trivial 1, trivial⟩
  have matched : ∀ word, (plus (char accepts)).Matches word ↔
      word ≠ [] ∧ ∀ c ∈ word, accepts c = true := by
    intro word
    rw [plus, matches_atLeast_char, Nat.one_le_iff_ne_zero, Ne, List.length_eq_zero_iff]
  rw [mem_run_iff plain silent]
  simp only [matched, and_assoc]

/-- A scan finds nothing where there is no match at any place. -/
theorem scan_eq_none_iff {pattern : Pattern} {before text : List Char} :
    pattern.scan before text = none ↔
      ∀ front back, text = front ++ back →
        pattern.run (.start (front.reverse ++ before) back) = [] := by
  induction text generalizing before with
  | nil =>
      rw [scan, List.head?_eq_none_iff]
      refine ⟨?_, fun fails => fails [] [] rfl⟩
      intro fails front back split
      obtain ⟨rfl, rfl⟩ := List.append_eq_nil_iff.mp split.symm
      exact fails
  | cons c rest ih =>
      rw [scan, Option.or_eq_none_iff, List.head?_eq_none_iff, ih]
      refine ⟨?_, ?_⟩
      · intro fails front back split
        cases front with
        | nil =>
            obtain rfl : c :: rest = back := split
            exact fails.1
        | cons d front =>
            obtain ⟨rfl, rfl⟩ := List.cons.inj split
            rw [List.reverse_cons, List.append_assoc]
            exact fails.2 front back rfl
      · intro fails
        refine ⟨fails [] _ rfl, ?_⟩
        intro front back split
        have later := fails (c :: front) back (congrArg (c :: ·) split)
        rwa [List.reverse_cons, List.append_assoc] at later

/-! ## The longest match first -/

section Longest

variable {first second body : Pattern} {cursor final other : Cursor}

/-- The match that is found first leaves the least of the text. -/
theorem LongestFirst.length_le (longest : LongestFirst body) (found : First body cursor final)
    (member : other ∈ body.run cursor) : final.rest.length ≤ other.rest.length := by
  obtain ⟨others, whole⟩ := List.head?_eq_some_iff.mp found
  have descending := longest cursor
  rw [whole] at member descending
  rcases List.mem_cons.mp member with rfl | later
  · exact le_rfl
  · exact ((List.pairwise_cons.mp descending).1 other later).le

theorem longestFirst_boundary : LongestFirst boundary := by
  intro cursor
  simp only [run]
  split
  · exact List.pairwise_singleton _ _
  · exact List.Pairwise.nil

theorem fixedWidth_boundary : FixedWidth boundary 0 := by
  intro cursor next member
  rw [(mem_run_boundary.mp member).1, Nat.add_zero]

/-- A group around a pattern keeps the order of its matches. -/
theorem LongestFirst.group (longest : LongestFirst body) (index : ℕ) :
    LongestFirst (.group index body) := by
  intro cursor
  rw [run_group, List.pairwise_map]
  exact longest cursor

/-- A group around a pattern keeps its width. -/
theorem FixedWidth.group {width : ℕ} (fixed : FixedWidth body width) (index : ℕ) :
    FixedWidth (.group index body) width := by
  intro cursor next member
  obtain ⟨reached, taken, rfl⟩ := List.mem_map.mp member
  exact fixed cursor reached taken

/-- A class a fixed number of times has one match, of that length. -/
theorem times_char_greedy (accepts : Char → Bool) (count : ℕ) :
    LongestFirst (times count (char accepts)) ∧ FixedWidth (times count (char accepts)) count := by
  induction count with
  | zero => exact ⟨longestFirst_empty, fixedWidth_empty⟩
  | succ count ih =>
      refine ⟨(longestFirst_char _).fixed_seq (fixedWidth_char _) ih.1, ?_⟩
      have width := (fixedWidth_char accepts).seq ih.2
      rwa [Nat.add_comm] at width

/-- A class up to a bound takes as much as it can first. -/
theorem longestFirst_upTo_char (accepts : Char → Bool) (most : ℕ) :
    LongestFirst (upTo most (char accepts)) := by
  induction most with
  | zero => exact longestFirst_empty
  | succ most ih =>
      refine ((longestFirst_char _).fixed_seq (fixedWidth_char _) ih).opt
        ⟨trivial, @Plain.upTo (char accepts) trivial most⟩ ?_
      intro taken
      obtain ⟨front, back, none, ⟨c, -, rfl⟩, -⟩ := taken
      cases none

theorem longestFirst_between_char (accepts : Char → Bool) (least most : ℕ) :
    LongestFirst (between least most (char accepts)) :=
  (times_char_greedy accepts least).1.fixed_seq (times_char_greedy accepts least).2
    (longestFirst_upTo_char accepts _)

theorem longestFirst_plus_char (accepts : Char → Bool) : LongestFirst (plus (char accepts)) :=
  (times_char_greedy accepts 1).1.fixed_seq (times_char_greedy accepts 1).2
    (longestFirst_star_char accepts)

/-- Every match begins with a character of the class. -/
def Opens (accepts : Char → Bool) (pattern : Pattern) : Prop :=
  ∀ cursor, ∀ final ∈ pattern.run cursor, ∃ c ∈ cursor.rest.head?, accepts c = true

variable {accepts opens : Char → Bool}

theorem opens_char (accepts : Char → Bool) : (char accepts).Opens accepts := by
  intro cursor final member
  obtain ⟨before, text, groups⟩ := cursor
  obtain ⟨c, rest, rfl, accepted, -⟩ := mem_run_char_iff.mp member
  exact ⟨c, rfl, accepted⟩

/-- A sequence starts as its first pattern does. -/
theorem Opens.seq (front : first.Opens accepts) : (Pattern.seq first second).Opens accepts := by
  intro cursor final member
  obtain ⟨middle, reached, -⟩ := mem_run_seq.mp member
  exact front cursor middle reached

theorem Opens.group (index : ℕ) (front : body.Opens accepts) :
    (Pattern.group index body).Opens accepts := by
  intro cursor final member
  obtain ⟨reached, taken, -⟩ := List.mem_map.mp member
  exact front cursor reached taken

/-- An optional pattern that takes something takes it before nothing. -/
theorem LongestFirst.opt_of_shorter (longest : LongestFirst body)
    (shorter : ∀ cursor, ∀ next ∈ body.run cursor, next.rest.length < cursor.rest.length) :
    LongestFirst (.opt body) := by
  refine longest.alt longestFirst_empty ?_
  intro cursor x taken y taken'
  rw [List.mem_singleton.mp taken']
  exact shorter cursor x taken

/-- A front after whose shorter matches the back fails. -/
theorem LongestFirst.seq_of_fails (front : LongestFirst first) (back : LongestFirst second)
    (fails : ∀ cursor, ∀ longer ∈ first.run cursor, ∀ shorter ∈ first.run cursor,
      longer.rest.length < shorter.rest.length → second.run shorter = []) :
    LongestFirst (.seq first second) := by
  intro cursor
  rw [run_seq, List.pairwise_flatMap]
  refine ⟨fun middle _ => back middle, ?_⟩
  refine (front cursor).imp_of_mem fun {longer shorter} member member' less => ?_
  intro x taken y taken'
  rw [fails cursor longer member shorter member' less] at taken'
  cases taken'

/-- A run of one class before a pattern that begins outside it can end in one place only. -/
theorem LongestFirst.class_seq (front : LongestFirst first)
    (passes : first.Over fun c => accepts c = true) (back : LongestFirst second)
    (begins : second.Opens opens) (outside : ∀ c, opens c = true → accepts c = false) :
    LongestFirst (.seq first second) := by
  refine front.seq_of_fails back ?_
  intro cursor longer member shorter member' less
  rw [List.eq_nil_iff_forall_not_mem]
  intro y taken
  -- After the shorter run a character of the class still stands.
  obtain ⟨c, head, opened⟩ := begins shorter y taken
  obtain ⟨word, split, -, all⟩ := run_passes first passes member
  obtain ⟨word', split', -, -⟩ := run_passes first passes member'
  have stops : ∀ d ∈ shorter.rest.head?, accepts d = false := by
    intro d member
    obtain rfl := Option.some.inj (head.symm.trans member)
    exact outside _ opened
  have le := length_le_of_stops (split.symm.trans split') all stops
  have total := congrArg List.length (split.symm.trans split')
  rw [List.length_append, List.length_append] at total
  omega

end Longest

end Pattern

end Backtracking
