import Mathlib.Data.List.Basic

/-! # Backtracking patterns

Patterns of the kind ECMAScript and Python match by backtracking, without
lookaround and back references. `Pattern.run` lists every way a pattern can match
at a cursor, in the order a backtracking matcher would try them: the first
alternative before the second, one more repetition before stopping. What such a
matcher returns is the first entry of that list at the leftmost cursor where the
list is not empty (`Pattern.exec`).
-/

namespace Backtracking

/-- What a group captured, and the text before it (the nearest character first). -/
structure Capture where
  before : List Char
  text : List Char
  deriving DecidableEq, Repr

/-- A place between two characters of the text, with the captures made so far.
The characters already passed are kept with the nearest one first. -/
structure Cursor where
  before : List Char
  rest : List Char
  groups : ℕ → Option Capture

namespace Cursor

/-- The cursor at the start of `rest`, before any capture. -/
def start (before rest : List Char) : Cursor := ⟨before, rest, fun _ => none⟩

/-- Record in group `index` the text between two cursors. -/
def capture (origin reached : Cursor) (index : ℕ) : Cursor :=
  { reached with
    groups := Function.update reached.groups index
      (some ⟨origin.before, origin.rest.take (origin.rest.length - reached.rest.length)⟩) }

/-- The captured text of a group, when it took part in the match. -/
def text (cursor : Cursor) (index : ℕ) : Option (List Char) :=
  (cursor.groups index).map Capture.text

end Cursor

/-- A word character in the sense of `\b`. -/
def isWordChar (c : Char) : Bool := c.isAlphanum || c = '_'

/-- A word boundary: exactly one neighbour of the cursor is a word character. -/
def atBoundary (before rest : List Char) : Bool :=
  before.head?.any isWordChar != rest.head?.any isWordChar

inductive Pattern where
  | empty
  | char (accepts : Char → Bool)
  | boundary
  | seq (first second : Pattern)
  | alt (first second : Pattern)
  | star (body : Pattern)
  | group (index : ℕ) (body : Pattern)

namespace Pattern

/-- Repeat a matcher greedily. A repetition that consumes nothing is not taken,
so `fuel`, the number of characters left, bounds the repetitions. -/
def repeated (body : Cursor → List Cursor) : ℕ → Cursor → List Cursor
  | 0, cursor => [cursor]
  | fuel + 1, cursor =>
      ((body cursor).flatMap fun next =>
        if next.rest.length < cursor.rest.length then repeated body fuel next else []) ++ [cursor]

/-- The cursors after every match at `cursor`, in the order backtracking tries
them. -/
def run : Pattern → Cursor → List Cursor
  | empty, cursor => [cursor]
  | char accepts, cursor =>
      match cursor.rest with
      | [] => []
      | c :: rest => if accepts c then [⟨c :: cursor.before, rest, cursor.groups⟩] else []
  | boundary, cursor => if atBoundary cursor.before cursor.rest then [cursor] else []
  | seq first second, cursor => (first.run cursor).flatMap second.run
  | alt first second, cursor => first.run cursor ++ second.run cursor
  | star body, cursor => repeated body.run cursor.rest.length cursor
  | group index body, cursor => (body.run cursor).map fun next => cursor.capture next index

/-- The first match at or after the cursor. -/
def scan (pattern : Pattern) : List Char → List Char → Option Cursor
  | before, [] => (pattern.run (.start before [])).head?
  | before, c :: rest =>
      (pattern.run (.start before (c :: rest))).head?.or (pattern.scan (c :: before) rest)

/-- The leftmost match in a text, as the cursor after it. -/
def exec (pattern : Pattern) (text : List Char) : Option Cursor := pattern.scan [] text

/-- The first match that takes the whole text. -/
def fullmatch (pattern : Pattern) (text : List Char) : Option Cursor :=
  (pattern.run (.start [] text)).find? fun final => final.rest.isEmpty

/-! ## Derived patterns -/

/-- `r?`, taken when it can be. -/
def opt (body : Pattern) : Pattern := alt body empty

/-- `r{n}` -/
def times : ℕ → Pattern → Pattern
  | 0, _ => empty
  | count + 1, body => seq body (times count body)

/-- `r{0,n}`, greedy. -/
def upTo : ℕ → Pattern → Pattern
  | 0, _ => empty
  | count + 1, body => opt (seq body (upTo count body))

/-- `r{m,n}`, greedy. -/
def between (least most : ℕ) (body : Pattern) : Pattern :=
  seq (times least body) (upTo (most - least) body)

/-- `r{n,}`, greedy. -/
def atLeast (least : ℕ) (body : Pattern) : Pattern := seq (times least body) (star body)

/-- `r+` -/
def plus (body : Pattern) : Pattern := atLeast 1 body

/-- A literal character. -/
def lit (c : Char) : Pattern := char (· = c)

/-- A literal ASCII letter matched without regard to case. Only ASCII characters
fold to ASCII ones, so `Char.toLower` is the whole of it. -/
def litI (c : Char) : Pattern := char fun d => d.toLower = c.toLower

/-- A concatenation. -/
def concat : List Pattern → Pattern
  | [] => empty
  | [single] => single
  | first :: rest => seq first (concat rest)

/-- A choice, tried from the left. -/
def oneOf : List Pattern → Pattern
  | [] => char fun _ => false
  | [single] => single
  | first :: rest => alt first (oneOf rest)

/-- A literal word matched without regard to case. -/
def wordI (word : String) : Pattern := concat (word.toList.map litI)

/-! ## One constructor at a time -/

theorem run_seq (first second : Pattern) (cursor : Cursor) :
    (seq first second).run cursor = (first.run cursor).flatMap second.run := rfl

theorem run_alt (first second : Pattern) (cursor : Cursor) :
    (alt first second).run cursor = first.run cursor ++ second.run cursor := rfl

theorem run_group (index : ℕ) (body : Pattern) (cursor : Cursor) :
    (group index body).run cursor = (body.run cursor).map fun next => cursor.capture next index :=
  rfl

/-- A class takes the next character if it accepts it. -/
theorem run_char_of_accepts {accepts : Char → Bool} {before rest : List Char} {c : Char}
    {groups : ℕ → Option Capture} (accepted : accepts c = true) :
    (char accepts).run ⟨before, c :: rest, groups⟩ = [⟨c :: before, rest, groups⟩] := by
  simp only [run, accepted, ↓reduceIte]

/-- A character class fails at the end of the text and before a character
outside it. -/
theorem run_char_eq_nil {accepts : Char → Bool} {cursor : Cursor}
    (rejected : ∀ c ∈ cursor.rest.head?, accepts c = false) : (char accepts).run cursor = [] := by
  obtain ⟨before, rest, groups⟩ := cursor
  cases rest with
  | nil => rfl
  | cons c rest =>
      simp only [run, rejected c rfl, Bool.false_eq_true, ↓reduceIte]

/-- A match of a sequence is a match of the second pattern after one of the first. -/
theorem mem_run_seq {first second : Pattern} {cursor final : Cursor} :
    final ∈ (seq first second).run cursor ↔
      ∃ middle ∈ first.run cursor, final ∈ second.run middle := by
  rw [run_seq, List.mem_flatMap]

/-- A sequence fails if its second pattern fails after every match of the first. -/
theorem run_seq_eq_nil {first second : Pattern} {cursor : Cursor}
    (fails : ∀ middle ∈ first.run cursor, second.run middle = []) :
    (seq first second).run cursor = [] := by
  rw [run_seq, List.flatMap_eq_nil_iff]
  exact fails

/-- It fails if its first pattern does. -/
theorem run_seq_eq_nil_left {first second : Pattern} {cursor : Cursor}
    (fails : first.run cursor = []) : (seq first second).run cursor = [] := by
  rw [run_seq, fails, List.flatMap_nil]

theorem run_opt (body : Pattern) (cursor : Cursor) :
    (opt body).run cursor = body.run cursor ++ [cursor] := rfl

/-- More fuel than characters left changes nothing. -/
theorem repeated_eq_of_le (body : Cursor → List Cursor) {fuel : ℕ} {cursor : Cursor}
    (enough : cursor.rest.length ≤ fuel) :
    repeated body fuel cursor = repeated body cursor.rest.length cursor := by
  induction fuel using Nat.strongRecOn generalizing cursor with
  | _ fuel ih =>
      cases fuel with
      | zero => rw [Nat.le_zero.mp enough]
      | succ fuel =>
          cases left : cursor.rest.length with
          | zero =>
              simp only [repeated, left, Nat.not_lt_zero, ↓reduceIte]
              rw [List.flatMap_eq_nil_iff.mpr fun _ _ => rfl, List.nil_append]
          | succ length =>
              simp only [repeated, left]
              congr 1
              apply List.flatMap_congr
              intro next _
              by_cases shorter : next.rest.length < length + 1
              · simp only [shorter, ↓reduceIte]
                rw [ih fuel (Nat.lt_succ_self fuel) (by omega)]
                exact (ih length (by omega) (by omega)).symm
              · simp only [shorter, ↓reduceIte]

/-- A greedy repetition takes the body once more, where that consumes something,
before it stops. -/
theorem run_star (body : Pattern) (cursor : Cursor) :
    (star body).run cursor =
      ((body.run cursor).flatMap fun next =>
        if next.rest.length < cursor.rest.length then (star body).run next else []) ++
      [cursor] := by
  simp only [run]
  cases left : cursor.rest.length with
  | zero =>
      simp only [repeated, Nat.not_lt_zero, ↓reduceIte]
      rw [List.flatMap_eq_nil_iff.mpr fun _ _ => rfl, List.nil_append]
  | succ length =>
      simp only [repeated, left]
      congr 1
      apply List.flatMap_congr
      intro next _
      by_cases shorter : next.rest.length < length + 1
      · simp only [shorter, ↓reduceIte]
        exact repeated_eq_of_le body.run (by omega)
      · simp only [shorter, ↓reduceIte]

/-- A repetition whose body fails stops at once. -/
theorem run_star_of_body_nil {body : Pattern} {cursor : Cursor}
    (fails : body.run cursor = []) : (star body).run cursor = [cursor] := by
  rw [run_star, fails, List.flatMap_nil, List.nil_append]

/-! ## What a match consumes -/

/-- From one cursor to the other only characters satisfying `property` are
passed. -/
def Passes (property : Char → Prop) (origin reached : Cursor) : Prop :=
  ∃ word, origin.rest = word ++ reached.rest ∧ reached.before = word.reverse ++ origin.before ∧
    ∀ c ∈ word, property c

theorem Passes.refl {property : Char → Prop} (cursor : Cursor) : Passes property cursor cursor :=
  ⟨[], rfl, rfl, by simp⟩

/-- Two stretches of text with the property make one. -/
theorem Passes.trans {property : Char → Prop} {first second third : Cursor}
    (front : Passes property first second) (back : Passes property second third) :
    Passes property first third := by
  obtain ⟨word, rest, before, all⟩ := front
  obtain ⟨word', rest', before', all'⟩ := back
  refine ⟨word ++ word', ?_, ?_, ?_⟩
  · rw [rest, rest', List.append_assoc]
  · rw [before', before, List.reverse_append, List.append_assoc]
  · intro c member
    rcases List.mem_append.mp member with left | right
    · exact all c left
    · exact all' c right

/-- A reflexive and transitive relation that the body respects is respected by
its repetition. -/
theorem repeated_relates {relation : Cursor → Cursor → Prop} {body : Cursor → List Cursor}
    (refl : ∀ cursor, relation cursor cursor)
    (trans : ∀ {first second third}, relation first second → relation second third →
      relation first third)
    (respects : ∀ cursor, ∀ next ∈ body cursor, relation cursor next)
    {fuel : ℕ} {cursor final : Cursor} (member : final ∈ repeated body fuel cursor) :
    relation cursor final := by
  induction fuel generalizing cursor with
  | zero => rw [List.mem_singleton.mp member]; exact refl cursor
  | succ fuel ih =>
      simp only [repeated, List.mem_append, List.mem_flatMap, List.mem_singleton] at member
      rcases member with ⟨next, taken, later⟩ | rfl
      · by_cases shorter : next.rest.length < cursor.rest.length
        · simp only [shorter, ↓reduceIte] at later
          exact trans (respects cursor next taken) (ih later)
        · simp only [shorter, ↓reduceIte, List.not_mem_nil] at later
      · exact refl _

/-- Every class of the pattern lies inside `property`. -/
def Over (property : Char → Prop) : Pattern → Prop
  | empty => True
  | char accepts => ∀ c, accepts c = true → property c
  | boundary => True
  | seq first second => first.Over property ∧ second.Over property
  | alt first second => first.Over property ∧ second.Over property
  | star body => body.Over property
  | group _ body => body.Over property

/-- All that a pattern over a property takes has the property. -/
theorem run_passes {property : Char → Prop} (pattern : Pattern) (within : pattern.Over property)
    {cursor final : Cursor} (member : final ∈ pattern.run cursor) :
    Passes property cursor final := by
  induction pattern generalizing cursor final with
  | empty => rw [List.mem_singleton.mp member]; exact .refl _
  | char accepts =>
      obtain ⟨before, rest, groups⟩ := cursor
      cases rest with
      | nil => exact (List.not_mem_nil member).elim
      | cons c rest =>
          by_cases accepted : accepts c = true
          · rw [run_char_of_accepts accepted, List.mem_singleton] at member
            subst member
            exact ⟨[c], rfl, rfl, by simpa using within c accepted⟩
          · simp only [run, accepted, Bool.false_eq_true, ↓reduceIte, List.not_mem_nil] at member
  | boundary =>
      simp only [run] at member
      split at member
      · rw [List.mem_singleton.mp member]; exact .refl _
      · exact (List.not_mem_nil member).elim
  | seq first second ihFirst ihSecond =>
      obtain ⟨middle, reached, member⟩ := mem_run_seq.mp member
      exact (ihFirst within.1 reached).trans (ihSecond within.2 member)
  | alt first second ihFirst ihSecond =>
      rcases List.mem_append.mp member with left | right
      · exact ihFirst within.1 left
      · exact ihSecond within.2 right
  | star body ih =>
      exact repeated_relates Passes.refl Passes.trans (fun _ _ taken => ih within taken) member
  | group index body ih =>
      obtain ⟨next, taken, rfl⟩ := List.mem_map.mp member
      have passed : Passes property cursor next := ih within taken
      exact passed

/-- Every match of the pattern consumes a character satisfying `property`. -/
def Needs (property : Char → Prop) : Pattern → Prop
  | empty => False
  | char accepts => ∀ c, accepts c = true → property c
  | boundary => False
  | seq first second => first.Needs property ∨ second.Needs property
  | alt first second => first.Needs property ∧ second.Needs property
  | star _ => False
  | group _ body => body.Needs property

theorem over_true (pattern : Pattern) : pattern.Over fun _ => True := by
  induction pattern with
  | empty => trivial
  | char accepts => exact fun _ _ => trivial
  | boundary => trivial
  | seq first second ihFirst ihSecond => exact ⟨ihFirst, ihSecond⟩
  | alt first second ihFirst ihSecond => exact ⟨ihFirst, ihSecond⟩
  | star body ih => exact ih
  | group index body ih => exact ih

/-- A pattern that needs a character the rest of the text lacks has no match. -/
theorem run_eq_nil_of_needs {property : Char → Prop} (pattern : Pattern)
    (needs : pattern.Needs property) {cursor : Cursor}
    (lacks : ∀ c ∈ cursor.rest, ¬ property c) : pattern.run cursor = [] := by
  induction pattern generalizing cursor with
  | empty => exact needs.elim
  | char accepts =>
      apply run_char_eq_nil
      intro c first
      by_contra accepted
      exact lacks c (List.mem_of_mem_head? first)
        (needs c (by simpa only [Bool.not_eq_false] using accepted))
  | boundary => exact needs.elim
  | seq first second ihFirst ihSecond =>
      rcases needs with needs | needs
      · exact run_seq_eq_nil_left (ihFirst needs lacks)
      · apply run_seq_eq_nil
        intro middle reached
        obtain ⟨word, rest, -, -⟩ := run_passes first first.over_true reached
        exact ihSecond needs fun c member => lacks c (rest ▸ List.mem_append_right word member)
  | alt first second ihFirst ihSecond =>
      rw [run_alt, ihFirst needs.1 lacks, ihSecond needs.2 lacks, List.append_nil]
  | star body ih => exact needs.elim
  | group index body ih => rw [run_group, ih needs lacks, List.map_nil]

/-! ## The first match -/

/-- `final` is the match that backtracking finds first at `cursor`. -/
def First (pattern : Pattern) (cursor final : Cursor) : Prop :=
  (pattern.run cursor).head? = some final

theorem first_empty (cursor : Cursor) : First empty cursor cursor := rfl

/-- The first match of a class is the next character, if the class accepts it. -/
theorem first_char {accepts : Char → Bool} {before rest : List Char} {c : Char}
    {groups : ℕ → Option Capture} (accepted : accepts c = true) :
    First (char accepts) ⟨before, c :: rest, groups⟩ ⟨c :: before, rest, groups⟩ := by
  rw [First, run_char_of_accepts accepted, List.head?_cons]

/-- The first match at a boundary takes nothing. -/
theorem first_boundary {cursor : Cursor} (edge : atBoundary cursor.before cursor.rest = true) :
    First boundary cursor cursor := by
  simp only [First, run, edge, ↓reduceIte, List.head?_cons]

/-- Where the first match of the front already lets the rest match, nothing is
retried. -/
theorem First.seq {first second : Pattern} {cursor middle final : Cursor}
    (front : First first cursor middle) (back : First second middle final) :
    First (seq first second) cursor final := by
  obtain ⟨others, front⟩ := List.head?_eq_some_iff.mp front
  rw [First, run_seq, front, List.flatMap_cons, List.head?_append, back, Option.some_or]

/-- The first match of a sequence is the first match of its second part after some
match of its first part. -/
theorem First.exists_middle {first second : Pattern} {cursor final : Cursor}
    (whole : First (.seq first second) cursor final) :
    ∃ middle ∈ first.run cursor, First second middle final := by
  rw [First, run_seq] at whole
  generalize first.run cursor = middles at whole
  induction middles with
  | nil => cases whole
  | cons middle middles ih =>
      rw [List.flatMap_cons, List.head?_append] at whole
      cases here : (second.run middle).head? with
      | none =>
          rw [here, Option.none_or] at whole
          obtain ⟨later, member, found⟩ := ih whole
          exact ⟨later, List.mem_cons_of_mem middle member, found⟩
      | some reached =>
          rw [here, Option.some_or] at whole
          exact ⟨middle, List.mem_cons_self, here.trans whole⟩

/-- The first branch that matches is taken. -/
theorem First.alt {first second : Pattern} {cursor final : Cursor}
    (front : First first cursor final) : First (alt first second) cursor final := by
  rw [First, run_alt, List.head?_append, front, Option.some_or]

/-- The second branch is tried where the first one fails. -/
theorem First.alt_right {first second : Pattern} {cursor final : Cursor}
    (fails : first.run cursor = []) (back : First second cursor final) :
    First (.alt first second) cursor final := by
  rw [First, run_alt, fails, List.nil_append]
  exact back

/-- An optional pattern takes its word if it can. -/
theorem First.opt {body : Pattern} {cursor final : Cursor}
    (front : First body cursor final) : First (opt body) cursor final := front.alt

/-- Where its body fails it takes nothing. -/
theorem first_opt_of_nil {body : Pattern} {cursor : Cursor} (fails : body.run cursor = []) :
    First (opt body) cursor cursor := First.alt_right fails (first_empty cursor)

/-- The first match of a group is the first match of its body. -/
theorem First.group {body : Pattern} {cursor final : Cursor} (index : ℕ)
    (front : First body cursor final) :
    First (group index body) cursor (cursor.capture final index) := by
  rw [First, run_group, List.head?_map, front, Option.map_some]

/-- A repetition goes on after a match that took something. -/
theorem First.star {body : Pattern} {cursor next final : Cursor}
    (front : First body cursor next) (shorter : next.rest.length < cursor.rest.length)
    (more : First (star body) next final) : First (star body) cursor final := by
  obtain ⟨others, front⟩ := List.head?_eq_some_iff.mp front
  rw [First, run_star, front, List.flatMap_cons, List.append_assoc, List.head?_append]
  simp only [shorter, ↓reduceIte]
  rw [more, Option.some_or]

/-- A repetition ends where its body fails. -/
theorem first_star_of_body_nil {body : Pattern} {cursor : Cursor} (fails : body.run cursor = []) :
    First (.star body) cursor cursor := by
  rw [First, run_star_of_body_nil fails, List.head?_cons]

/-- What a group captured is the text between the two cursors. -/
theorem capture_text {origin reached : Cursor} {word : List Char} (index : ℕ)
    (rest : origin.rest = word ++ reached.rest) :
    (origin.capture reached index).groups index = some ⟨origin.before, word⟩ := by
  simp only [Cursor.capture, Function.update_self, rest, List.length_append, Nat.add_sub_cancel,
    List.take_left]

/-- A group records the text that its body takes. -/
theorem First.group_word {body : Pattern} {before before' word rest : List Char}
    {groups groups' : ℕ → Option Capture} (index : ℕ)
    (front : First body ⟨before, word ++ rest, groups⟩ ⟨before', rest, groups'⟩) :
    First (.group index body) ⟨before, word ++ rest, groups⟩
      ⟨before', rest, Function.update groups' index (some ⟨before, word⟩)⟩ := by
  have whole := First.group index front
  simp only [Cursor.capture, List.length_append, Nat.add_sub_cancel, List.take_left] at whole
  exact whole

section Classes

variable {accepts : Char → Bool} {before word rest : List Char} {groups : ℕ → Option Capture}

/-- A greedy run of one class takes every character of it that is there. -/
theorem first_star_char (all : ∀ c ∈ word, accepts c = true)
    (stops : ∀ c ∈ rest.head?, accepts c = false) :
    First (.star (char accepts)) ⟨before, word ++ rest, groups⟩
      ⟨word.reverse ++ before, rest, groups⟩ := by
  induction word generalizing before with
  | nil => exact first_star_of_body_nil (run_char_eq_nil stops)
  | cons c word ih =>
      have accepted : accepts c = true := all c List.mem_cons_self
      rw [List.reverse_cons, List.append_assoc, List.singleton_append]
      refine First.star (first_char accepted) (Nat.lt_succ_self _) ?_
      exact ih fun d member => all d (List.mem_cons_of_mem c member)

/-- A class a fixed number of times takes a word of that length. -/
theorem run_times_char (all : ∀ c ∈ word, accepts c = true) :
    (times word.length (char accepts)).run ⟨before, word ++ rest, groups⟩ =
      [⟨word.reverse ++ before, rest, groups⟩] := by
  induction word generalizing before with
  | nil => rfl
  | cons c word ih =>
      rw [List.length_cons, times, run_seq, List.cons_append,
        run_char_of_accepts (all c List.mem_cons_self), List.flatMap_singleton,
        ih fun d member => all d (List.mem_cons_of_mem c member), List.reverse_cons,
        List.append_assoc, List.singleton_append]

theorem first_times_char {count : ℕ} (length : word.length = count)
    (all : ∀ c ∈ word, accepts c = true) :
    First (times count (char accepts)) ⟨before, word ++ rest, groups⟩
      ⟨word.reverse ++ before, rest, groups⟩ := by
  rw [First, ← length, run_times_char all, List.head?_cons]

/-- `r{0,n}` over a class takes up to `n` characters; it stops earlier only where
the class ends. -/
theorem first_upTo_char {most : ℕ} (fits : word.length ≤ most)
    (all : ∀ c ∈ word, accepts c = true)
    (stops : word.length = most ∨ ∀ c ∈ rest.head?, accepts c = false) :
    First (upTo most (char accepts)) ⟨before, word ++ rest, groups⟩
      ⟨word.reverse ++ before, rest, groups⟩ := by
  induction most generalizing before word with
  | zero =>
      rw [List.length_eq_zero_iff.mp (Nat.le_zero.mp fits)]
      exact first_empty _
  | succ most ih =>
      cases word with
      | nil =>
          rcases stops with full | stops
          · exact absurd full (by simp)
          · exact first_opt_of_nil (run_seq_eq_nil_left (run_char_eq_nil stops))
      | cons c word =>
          rw [List.reverse_cons, List.append_assoc, List.singleton_append]
          refine First.opt (First.seq (first_char (all c List.mem_cons_self)) ?_)
          refine ih (Nat.succ_le_succ_iff.mp fits)
            (fun d member => all d (List.mem_cons_of_mem c member)) ?_
          simpa only [List.length_cons, Nat.add_right_cancel_iff] using stops

theorem mem_run_char {cursor final : Cursor} (member : final ∈ (char accepts).run cursor) :
    ∃ c, cursor.rest = c :: final.rest := by
  obtain ⟨before, rest, groups⟩ := cursor
  cases rest with
  | nil => exact absurd member List.not_mem_nil
  | cons c rest =>
      by_cases accepted : accepts c = true
      · rw [run_char_of_accepts accepted, List.mem_singleton] at member
        exact ⟨c, by rw [member]⟩
      · simp only [run, accepted, Bool.false_eq_true, ↓reduceIte, List.not_mem_nil] at member

/-- It takes exactly that many characters. -/
theorem mem_run_times_char {count : ℕ} {cursor final : Cursor}
    (member : final ∈ (times count (char accepts)).run cursor) :
    ∃ word, cursor.rest = word ++ final.rest ∧ word.length = count := by
  induction count generalizing cursor with
  | zero => exact ⟨[], by rw [List.mem_singleton.mp member]; rfl, rfl⟩
  | succ count ih =>
      obtain ⟨middle, first, later⟩ := mem_run_seq.mp member
      obtain ⟨c, split⟩ := mem_run_char first
      obtain ⟨word, rest, length⟩ := ih later
      exact ⟨c :: word, by rw [split, rest]; rfl, by rw [List.length_cons, length]⟩

/-- With a bound it takes at most that many. -/
theorem mem_run_upTo_char {most : ℕ} {cursor final : Cursor}
    (member : final ∈ (upTo most (char accepts)).run cursor) :
    ∃ word, cursor.rest = word ++ final.rest ∧ word.length ≤ most := by
  induction most generalizing cursor with
  | zero => exact ⟨[], by rw [List.mem_singleton.mp member]; rfl, Nat.le_refl 0⟩
  | succ most ih =>
      rw [upTo, run_opt, List.mem_append] at member
      rcases member with member | stopped
      · obtain ⟨middle, first, later⟩ := mem_run_seq.mp member
        obtain ⟨c, split⟩ := mem_run_char first
        obtain ⟨word, rest, length⟩ := ih later
        exact ⟨c :: word, by rw [split, rest]; rfl, Nat.succ_le_succ length⟩
      · exact ⟨[], by rw [List.mem_singleton.mp stopped]; rfl, Nat.zero_le _⟩

/-- `r{m,n}` over a class takes at most `n` characters. -/
theorem mem_run_between_char {least most : ℕ} (ordered : least ≤ most) {cursor final : Cursor}
    (member : final ∈ (between least most (char accepts)).run cursor) :
    ∃ word, cursor.rest = word ++ final.rest ∧ word.length ≤ most := by
  obtain ⟨middle, first, later⟩ := mem_run_seq.mp member
  obtain ⟨front, split, length⟩ := mem_run_times_char first
  obtain ⟨back, rest, shorter⟩ := mem_run_upTo_char later
  refine ⟨front ++ back, by rw [split, rest, List.append_assoc], ?_⟩
  rw [List.length_append]
  omega

/-- `r{m,n}` over a class takes as many characters as it may. -/
theorem first_between_char {least most : ℕ} (least_le : least ≤ word.length)
    (le_most : word.length ≤ most) (all : ∀ c ∈ word, accepts c = true)
    (stops : word.length = most ∨ ∀ c ∈ rest.head?, accepts c = false) :
    First (between least most (char accepts)) ⟨before, word ++ rest, groups⟩
      ⟨word.reverse ++ before, rest, groups⟩ := by
  rw [← List.take_append_drop least word, List.append_assoc, List.reverse_append,
    List.append_assoc]
  refine First.seq (first_times_char (by rw [List.length_take, Nat.min_eq_left least_le])
    fun c member => all c (List.mem_of_mem_take member)) ?_
  refine first_upTo_char (by rw [List.length_drop]; omega)
    (fun c member => all c (List.mem_of_mem_drop member)) ?_
  rw [List.length_drop]
  rcases stops with full | stops
  · exact Or.inl (by omega)
  · exact Or.inr stops

/-- `r{n,}` over a class takes every character of it that is there. -/
theorem first_atLeast_char {least : ℕ} (least_le : least ≤ word.length)
    (all : ∀ c ∈ word, accepts c = true) (stops : ∀ c ∈ rest.head?, accepts c = false) :
    First (atLeast least (char accepts)) ⟨before, word ++ rest, groups⟩
      ⟨word.reverse ++ before, rest, groups⟩ := by
  rw [← List.take_append_drop least word, List.append_assoc, List.reverse_append,
    List.append_assoc]
  refine First.seq (first_times_char (by rw [List.length_take, Nat.min_eq_left least_le])
    fun c member => all c (List.mem_of_mem_take member)) ?_
  exact first_star_char (fun c member => all c (List.mem_of_mem_drop member)) stops

end Classes

/-! ## The leftmost match -/

/-- A match at the start is the leftmost one. -/
theorem scan_of_first {pattern : Pattern} {before rest : List Char} {final : Cursor}
    (first : First pattern (.start before rest) final) :
    pattern.scan before rest = some final := by
  cases rest with
  | nil => exact first
  | cons c rest => rw [scan, first, Option.some_or]

/-- A first match that ends with the text is a full match. -/
theorem fullmatch_of_first {pattern : Pattern} {text : List Char} {final : Cursor}
    (first : First pattern (.start [] text) final) (whole : final.rest = []) :
    pattern.fullmatch text = some final := by
  obtain ⟨others, found⟩ := List.head?_eq_some_iff.mp first
  rw [fullmatch, found, List.find?_cons_of_pos (by rw [whole]; rfl)]

/-- A scan that is sure to succeed at the end of `word`, and whose first match at
any cursor up to there is good, finds a good match. -/
theorem scan_satisfies {good : Cursor → Prop} (pattern : Pattern) {before word rest : List Char}
    (here : ∀ front back, word = front ++ back → ∀ final,
      First pattern (.start (front.reverse ++ before) (back ++ rest)) final → good final)
    {last : Cursor} (succeeds : First pattern (.start (word.reverse ++ before) rest) last) :
    ∃ final, pattern.scan before (word ++ rest) = some final ∧ good final := by
  induction word generalizing before with
  | nil => exact ⟨last, scan_of_first succeeds, here [] [] rfl last succeeds⟩
  | cons c word ih =>
      rw [List.cons_append, scan]
      cases now : (pattern.run (.start before (c :: (word ++ rest)))).head? with
      | some final => exact ⟨final, Option.some_or, here [] (c :: word) rfl final now⟩
      | none =>
          rw [Option.none_or]
          apply ih
          · intro front back split final first
            refine here (c :: front) back (by rw [split]; rfl) final ?_
            rwa [List.reverse_cons, List.append_assoc, List.singleton_append]
          · rwa [List.reverse_cons, List.append_assoc, List.singleton_append] at succeeds

/-- A pattern that needs a kind of character is not found in a text without it. -/
theorem scan_eq_none_of_needs {property : Char → Prop} (pattern : Pattern)
    (needs : pattern.Needs property) {before rest : List Char}
    (lacks : ∀ c ∈ rest, ¬ property c) : pattern.scan before rest = none := by
  induction rest generalizing before with
  | nil => rw [scan, run_eq_nil_of_needs pattern needs lacks, List.head?_nil]
  | cons c rest ih =>
      rw [scan, run_eq_nil_of_needs pattern needs lacks, List.head?_nil, Option.none_or]
      exact ih fun d member => lacks d (List.mem_cons_of_mem c member)

end Pattern

end Backtracking
