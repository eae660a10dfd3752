import BirrTrack.Foundation.Language
import BirrTrack.Processing.Parsing

/-! # Labelled transaction ids

How the pattern for transaction ids reads a text: at the first place where a label is
followed by a token, it takes the longest label after which a token follows, all the
separators it can, and then every character of the token.
-/

namespace BirrTrack.Processing

open Js Backtracking Pattern

/-! ## The grammar -/

/-- The letters of a word in lower case, in any case. -/
def Spells (word : String) (letters : List Char) : Prop :=
  letters.map Char.toLower = word.toList

instance (word : String) (letters : List Char) : Decidable (Spells word letters) :=
  inferInstanceAs (Decidable (_ = _))

/-- `[\s:#-]` -/
def isSeparator (c : Char) : Bool := isSpace c ∨ c = ':' ∨ c = '#' ∨ c = '-'

def labelWords : List String := ["tx", "txn", "txid", "transaction", "reference", "ref"]

/-- What the pattern takes for a label. -/
inductive IsLabel : List Char → Prop where
  | word {word : String} {letters : List Char} (listed : word ∈ labelWords)
      (spelt : Spells word letters) : IsLabel letters
  | transactionId {front blanks back : List Char} (first : Spells "transaction" front)
      (blank : ∀ c ∈ blanks, isSpace c = true) (second : Spells "id" back) :
      IsLabel (front ++ (blanks ++ back))

/-- A text begins with at least six characters of a token. -/
def StartsToken (text : List Char) : Prop :=
  ∃ token rest, text = token ++ rest ∧ (∀ c ∈ token, isIdChar c = true) ∧ 6 ≤ token.length

/-- After some separators a token follows. -/
def HasToken (text : List Char) : Prop :=
  ∃ separators rest, text = separators ++ rest ∧ (∀ c ∈ separators, isSeparator c = true) ∧
    StartsToken rest

/-- A text begins with a label and its token. -/
def BeginsLabelled (text : List Char) : Prop :=
  ∃ label rest, text = label ++ rest ∧ IsLabel label ∧ HasToken rest

/-- The separators and the token that are read after a label: as many separators as still
leave a token, and then all of its characters. -/
structure ReadsToken (text separators token rest : List Char) : Prop where
  split : text = separators ++ (token ++ rest)
  separated : ∀ c ∈ separators, isSeparator c = true
  isToken : ∀ c ∈ token, isIdChar c = true
  long : 6 ≤ token.length
  stops : ∀ c ∈ rest.head?, isIdChar c = false
  mostSeparators : ∀ other after, text = other ++ after → (∀ c ∈ other, isSeparator c = true) →
    separators.length < other.length → ¬ StartsToken after

/-- What is read at the beginning of a text: the longest label that leaves a token. -/
structure Reads (text label separators token rest : List Char) : Prop where
  split : text = label ++ (separators ++ (token ++ rest))
  isLabel : IsLabel label
  reads : ReadsToken (separators ++ (token ++ rest)) separators token rest
  longestLabel : ∀ other after, text = other ++ after → IsLabel other →
    label.length < other.length → ¬ HasToken after

/-- The first place of a text where a label and its token stand. -/
structure FirstLabelled (text before rest : List Char) : Prop where
  split : text = before ++ rest
  labelled : BeginsLabelled rest
  earliest : ∀ earlier later, text = earlier ++ later → earlier.length < before.length →
    ¬ BeginsLabelled later

/-- The id that is read in a text, with all that stands around it. -/
structure ReadsId (text before label separators token rest : List Char) : Prop where
  place : FirstLabelled text before (label ++ (separators ++ (token ++ rest)))
  reads : Reads (label ++ (separators ++ (token ++ rest))) label separators token rest

/-- `transactionIdMatch[1]` and where it stands. -/
def transactionIdCapture (ocrText : List Char) : Option Capture :=
  (transactionIdRegex.exec ocrText).bind fun m => m.groups 1

/-! ## Words without regard to case -/

/-- A text begins with a word, in any case. -/
def Begins (word : String) (text : List Char) : Prop := word.toList <+: text.map Char.toLower

instance (word : String) (text : List Char) : Decidable (Begins word text) :=
  inferInstanceAs (Decidable (_ <+: _))

/-- Neither of two words continues the other. -/
def Apart (first second : List Char) : Prop := ¬ first <+: second ∧ ¬ second <+: first

instance (first second : List Char) : Decidable (Apart first second) :=
  inferInstanceAs (Decidable (_ ∧ _))

/-- A text that goes on after a word begins with it. -/
theorem Spells.begins {word : String} {letters : List Char} (spelt : Spells word letters)
    (rest : List Char) : Begins word (letters ++ rest) := by
  rw [Begins, List.map_append, spelt]
  exact List.prefix_append _ _

/-- Two words that one text begins with are not apart: one is the start of the other. -/
theorem Begins.not_apart {first second : String} {text : List Char} (front : Begins first text)
    (back : Begins second text) : ¬ Apart first.toList second.toList := by
  intro apart
  rcases List.prefix_or_prefix_of_prefix front back with before | before
  · exact apart.1 before
  · exact apart.2 before

/-- A word has as many letters as its spellings. -/
theorem Spells.length_eq {word : String} {letters : List Char} (spelt : Spells word letters) :
    letters.length = word.toList.length := by
  rw [← spelt, List.length_map]

/-! ## The pattern's parts -/

def txLabel : Pattern := .seq (.wordI "tx") (.opt (.oneOf [.litI 'n', .wordI "id"]))

def transactionLabel : Pattern :=
  .seq (.wordI "transaction") (.opt (.seq (.star space) (.wordI "id")))

def labelPattern : Pattern :=
  .oneOf [txLabel, transactionLabel, .wordI "reference", .wordI "ref"]

def idPattern : Pattern := .group 1 (.atLeast 6 (.char isIdChar))

def tokenPattern : Pattern := .seq (.star (.char isSeparator)) idPattern

/-- The pattern is a label followed by a token. -/
theorem transactionIdRegex_eq : transactionIdRegex = .seq labelPattern tokenPattern := rfl

/-- The words of a caseless word pattern are its spellings. -/
theorem matches_wordI_iff {word : String} {letters : List Char}
    (lower : word.toList.map Char.toLower = word.toList) :
    (wordI word).Matches letters ↔ Spells word letters := by
  rw [matches_wordI, lower, Spells]

/-- The words of the group are the tokens of six characters and more. -/
theorem matches_idPattern {word : List Char} :
    idPattern.Matches word ↔ (∀ c ∈ word, isIdChar c = true) ∧ 6 ≤ word.length :=
  matches_atLeast_char.trans and_comm

/-- A token starts where a word of its pattern does. -/
theorem startsToken_iff {text : List Char} :
    StartsToken text ↔ ∃ word rest, text = word ++ rest ∧ idPattern.Matches word := by
  simp only [StartsToken, matches_idPattern]

/-- Separators and a token start where a word of their pattern does. -/
theorem hasToken_iff {text : List Char} :
    HasToken text ↔ ∃ word rest, text = word ++ rest ∧ tokenPattern.Matches word := by
  refine ⟨?_, ?_⟩
  · intro token
    obtain ⟨separators, after, rfl, separated, starts⟩ := token
    obtain ⟨word, rest, rfl, taken⟩ := startsToken_iff.mp starts
    exact ⟨separators ++ word, rest, (List.append_assoc _ _ _).symm, separators, word, rfl,
      matches_star_char.mpr separated, taken⟩
  · intro taken
    obtain ⟨word, rest, rfl, separators, token, rfl, separated, taken⟩ := taken
    exact ⟨separators, token ++ rest, List.append_assoc _ _ _, matches_star_char.mp separated,
      startsToken_iff.mpr ⟨token, rest, rfl, taken⟩⟩

/-- A word made of two is spelt part by part. -/
theorem spells_append {word first second : String} {letters : List Char}
    (parts : word.toList = first.toList ++ second.toList) :
    Spells word letters ↔
      ∃ front back, letters = front ++ back ∧ Spells first front ∧ Spells second back := by
  rw [Spells, parts, List.map_eq_append_iff]
  exact Iff.rfl

/-- The words of the first alternative. -/
theorem matches_txLabel {letters : List Char} :
    txLabel.Matches letters ↔
      Spells "txn" letters ∨ Spells "txid" letters ∨ Spells "tx" letters := by
  have n : ∀ back, (litI 'n').Matches back ↔ Spells "n" back :=
    fun back => @matches_wordI_iff "n" back rfl
  have id : ∀ back, (wordI "id").Matches back ↔ Spells "id" back :=
    fun back => matches_wordI_iff rfl
  have taken : txLabel.Matches letters ↔ ∃ front back, letters = front ++ back ∧
      Spells "tx" front ∧ ((Spells "n" back ∨ Spells "id" back) ∨ back = []) := by
    simp only [← n, ← id, ← @matches_wordI_iff "tx" _ rfl]
    exact Iff.rfl
  have txn := @spells_append "txn" "tx" "n" letters rfl
  have txid := @spells_append "txid" "tx" "id" letters rfl
  rw [taken, txn, txid]
  refine ⟨?_, ?_⟩
  · intro parts
    obtain ⟨front, back, rfl, first, (second | second) | rfl⟩ := parts
    · exact Or.inl ⟨front, back, rfl, first, second⟩
    · exact Or.inr (Or.inl ⟨front, back, rfl, first, second⟩)
    · exact Or.inr (Or.inr (by rwa [List.append_nil]))
  · intro spelt
    rcases spelt with ⟨front, back, rfl, first, second⟩ | ⟨front, back, rfl, first, second⟩ | spelt
    · exact ⟨front, back, rfl, first, Or.inl (Or.inl second)⟩
    · exact ⟨front, back, rfl, first, Or.inl (Or.inr second)⟩
    · exact ⟨letters, [], (List.append_nil letters).symm, spelt, Or.inr rfl⟩

/-- The words of the second alternative: blanks may stand before the id. -/
theorem matches_transactionLabel {letters : List Char} :
    transactionLabel.Matches letters ↔ Spells "transaction" letters ∨
      ∃ front blanks back, letters = front ++ (blanks ++ back) ∧ Spells "transaction" front ∧
        (∀ c ∈ blanks, isSpace c = true) ∧ Spells "id" back := by
  have taken : transactionLabel.Matches letters ↔ ∃ front rest, letters = front ++ rest ∧
      Spells "transaction" front ∧ ((∃ blanks back, rest = blanks ++ back ∧
        (∀ c ∈ blanks, isSpace c = true) ∧ Spells "id" back) ∨ rest = []) := by
    simp only [← @matches_wordI_iff "transaction" _ rfl, ← @matches_wordI_iff "id" _ rfl,
      ← @matches_star_char isSpace]
    exact Iff.rfl
  rw [taken]
  refine ⟨?_, ?_⟩
  · intro parts
    obtain ⟨front, rest, rfl, first, ⟨blanks, back, rfl, blank, second⟩ | rfl⟩ := parts
    · exact Or.inr ⟨front, blanks, back, rfl, first, blank, second⟩
    · exact Or.inl (by rwa [List.append_nil])
  · intro spelt
    rcases spelt with spelt | ⟨front, blanks, back, rfl, first, blank, second⟩
    · exact ⟨letters, [], (List.append_nil letters).symm, spelt, Or.inr rfl⟩
    · exact ⟨front, blanks ++ back, rfl, first, Or.inl ⟨blanks, back, rfl, blank, second⟩⟩

/-- The words of the label pattern are the labels. -/
theorem matches_labelPattern {letters : List Char} :
    labelPattern.Matches letters ↔ IsLabel letters := by
  have taken : labelPattern.Matches letters ↔ txLabel.Matches letters ∨
      transactionLabel.Matches letters ∨ Spells "reference" letters ∨ Spells "ref" letters := by
    rw [← @matches_wordI_iff "reference" _ rfl, ← @matches_wordI_iff "ref" _ rfl]
    exact Iff.rfl
  rw [taken, matches_txLabel, matches_transactionLabel]
  refine ⟨?_, ?_⟩
  · intro spelt
    rcases spelt with (spelt | spelt | spelt) |
      (spelt | ⟨front, blanks, back, rfl, first, blank, second⟩) | spelt | spelt
    · exact .word (by decide) spelt
    · exact .word (by decide) spelt
    · exact .word (by decide) spelt
    · exact .word (by decide) spelt
    · exact .transactionId first blank second
    · exact .word (by decide) spelt
    · exact .word (by decide) spelt
  · intro label
    cases label with
    | word listed spelt =>
        simp only [labelWords, List.mem_cons, List.not_mem_nil, or_false] at listed
        rcases listed with rfl | rfl | rfl | rfl | rfl | rfl
        · exact Or.inl (Or.inr (Or.inr spelt))
        · exact Or.inl (Or.inl spelt)
        · exact Or.inl (Or.inr (Or.inl spelt))
        · exact Or.inr (Or.inl (Or.inl spelt))
        · exact Or.inr (Or.inr (Or.inl spelt))
        · exact Or.inr (Or.inr (Or.inr spelt))
    | transactionId first blank second =>
        exact Or.inr (Or.inl (Or.inr ⟨_, _, _, rfl, first, blank, second⟩))

/-! ## The longest label comes first -/

/-- A text in which a word pattern matches begins with the word. -/
theorem begins_of_mem_run {word : String} (lower : word.toList.map Char.toLower = word.toList)
    (plain : (wordI word).Plain) {cursor next : Cursor}
    (member : next ∈ (wordI word).run cursor) : Begins word cursor.rest := by
  obtain ⟨letters, taken, split, -⟩ := takes_of_mem_run (wordI word) plain member
  rw [split]
  exact ((matches_wordI_iff lower).mp taken).begins _

/-- So does one in which the word is matched with something after it. -/
theorem begins_of_mem_run_seq {word : String} {back : Pattern}
    (lower : word.toList.map Char.toLower = word.toList) (plain : (wordI word).Plain)
    {cursor next : Cursor} (member : next ∈ (seq (wordI word) back).run cursor) :
    Begins word cursor.rest := by
  obtain ⟨middle, reached, -⟩ := mem_run_seq.mp member
  exact begins_of_mem_run lower plain reached

/-- Of two labels of the first alternative the longer one is tried first. -/
theorem longestFirst_txLabel : LongestFirst txLabel := by
  obtain ⟨txFirst, txWidth⟩ := word_greedy "tx".toList
  obtain ⟨nFirst, -⟩ := word_greedy "n".toList
  obtain ⟨idFirst, -⟩ := word_greedy "id".toList
  refine txFirst.fixed_seq txWidth (LongestFirst.opt ?_ ⟨trivial, plain_wordI "id"⟩ ?_)
  · refine nFirst.alt idFirst ?_
    intro cursor x taken y taken'
    have n : Begins "n" cursor.rest := begins_of_mem_run rfl (plain_wordI "n") taken
    have id : Begins "id" cursor.rest := begins_of_mem_run rfl (plain_wordI "id") taken'
    exact absurd (by decide) (n.not_apart id)
  · rintro (empty | empty)
    · exact absurd ((@matches_wordI_iff "n" [] rfl).mp empty) (by decide)
    · exact absurd ((@matches_wordI_iff "id" [] rfl).mp empty) (by decide)

/-- Of two labels of the second alternative the longer one is tried first. -/
theorem longestFirst_transactionLabel : LongestFirst transactionLabel := by
  obtain ⟨wordFirst, wordWidth⟩ := word_greedy "transaction".toList
  obtain ⟨idFirst, idWidth⟩ := word_greedy "id".toList
  refine wordFirst.fixed_seq wordWidth (LongestFirst.opt
    ((longestFirst_star_char isSpace).seq_fixed idFirst idWidth) ⟨trivial, plain_wordI "id"⟩ ?_)
  rintro ⟨front, back, empty, -, second⟩
  rw [(List.append_eq_nil_iff.mp empty.symm).2] at second
  exact absurd ((@matches_wordI_iff "id" [] rfl).mp second) (by decide)

/-- Of two labels the longer one is tried first, since the alternatives begin with different
words. -/
theorem longestFirst_labelPattern : LongestFirst labelPattern := by
  obtain ⟨referenceFirst, referenceWidth⟩ := word_greedy "reference".toList
  obtain ⟨refFirst, refWidth⟩ := word_greedy "ref".toList
  have tx : ∀ cursor, ∀ x ∈ txLabel.run cursor, Begins "tx" cursor.rest :=
    fun _ _ => begins_of_mem_run_seq rfl (plain_wordI "tx")
  have transaction : ∀ cursor, ∀ x ∈ transactionLabel.run cursor,
      Begins "transaction" cursor.rest :=
    fun _ _ => begins_of_mem_run_seq rfl (plain_wordI "transaction")
  have reference : ∀ cursor, ∀ x ∈ (wordI "reference").run cursor,
      Begins "reference" cursor.rest :=
    fun _ _ => begins_of_mem_run rfl (plain_wordI "reference")
  have ref : ∀ cursor, ∀ x ∈ (wordI "ref").run cursor, Begins "ref" cursor.rest :=
    fun _ _ => begins_of_mem_run rfl (plain_wordI "ref")
  refine longestFirst_txLabel.alt (longestFirst_transactionLabel.alt
    (referenceFirst.alt refFirst ?_) ?_) ?_
  · intro cursor x taken y taken'
    have long : cursor.rest.length = x.rest.length + 9 := referenceWidth cursor x taken
    have short : cursor.rest.length = y.rest.length + 3 := refWidth cursor y taken'
    omega
  · intro cursor x taken y taken'
    rcases List.mem_append.mp taken' with other | other
    · exact absurd (by decide) ((transaction cursor x taken).not_apart (reference cursor y other))
    · exact absurd (by decide) ((transaction cursor x taken).not_apart (ref cursor y other))
  · intro cursor x taken y taken'
    rcases List.mem_append.mp taken' with other | other
    · exact absurd (by decide) ((tx cursor x taken).not_apart (transaction cursor y other))
    · rcases List.mem_append.mp other with other | other
      · exact absurd (by decide) ((tx cursor x taken).not_apart (reference cursor y other))
      · exact absurd (by decide) ((tx cursor x taken).not_apart (ref cursor y other))

/-! ## What is read at one place -/

/-- A labelled token begins where a word of the whole pattern does. -/
theorem beginsLabelled_iff {text : List Char} :
    BeginsLabelled text ↔
      ∃ word rest, text = word ++ rest ∧ transactionIdRegex.Matches word := by
  refine ⟨?_, ?_⟩
  · intro begins
    obtain ⟨label, after, rfl, isLabel, token⟩ := begins
    obtain ⟨word, rest, rfl, taken⟩ := hasToken_iff.mp token
    exact ⟨label ++ word, rest, (List.append_assoc _ _ _).symm, label, word, rfl,
      matches_labelPattern.mpr isLabel, taken⟩
  · intro taken
    obtain ⟨word, rest, rfl, label, after, rfl, isLabel, taken⟩ := taken
    exact ⟨label, after ++ rest, List.append_assoc _ _ _, matches_labelPattern.mp isLabel,
      hasToken_iff.mpr ⟨after, rest, rfl, taken⟩⟩

theorem plain_idPattern : idPattern.Plain := ⟨@Plain.times (.char isIdChar) trivial 6, trivial⟩

theorem plain_tokenPattern : tokenPattern.Plain := ⟨trivial, plain_idPattern⟩

theorem plain_labelPattern : labelPattern.Plain :=
  ⟨⟨plain_wordI "tx", ⟨trivial, plain_wordI "id"⟩, trivial⟩,
    ⟨plain_wordI "transaction", ⟨trivial, plain_wordI "id"⟩, trivial⟩,
    plain_wordI "reference", plain_wordI "ref"⟩

/-- No part of the pattern looks at what stands before it. -/
theorem plain_transactionIdRegex : transactionIdRegex.Plain := by
  rw [transactionIdRegex_eq]
  exact ⟨plain_labelPattern, plain_tokenPattern⟩

/-- The first match of the token pattern takes all separators and the whole token, and captures
it. -/
theorem readsToken_of_first {cursor final : Cursor} (first : First tokenPattern cursor final) :
    ∃ separators token, ReadsToken cursor.rest separators token final.rest ∧
      final.groups 1 = some ⟨separators.reverse ++ cursor.before, token⟩ := by
  obtain ⟨middle, reached, found, fails⟩ := First.longest (longestFirst_star_char _) first
  obtain ⟨separators, taken, split, before⟩ :=
    takes_of_mem_run (.star (.char isSeparator)) trivial reached
  have separated := matches_star_char.mp taken
  obtain ⟨next, inner, rfl⟩ := First.exists_of_group found
  obtain ⟨token, rest, isToken, long, stops⟩ := First.atLeast_char inner
  refine ⟨separators, token, ⟨?_, separated, isToken, long, stops, ?_⟩, ?_⟩
  · rw [split, rest]
    rfl
  · intro other after again separated' longer starts
    obtain ⟨before', text, groups⟩ := cursor
    obtain ⟨groups', member⟩ := @exists_mem_run_of_matches (.star (.char isSeparator)) before'
      other after groups (matches_star_char.mpr separated')
    obtain rfl : text = other ++ after := again
    have shorter : after.length < middle.rest.length := by
      have lengths := congrArg List.length split
      simp only [List.length_append] at lengths
      omega
    obtain ⟨word, rest', begins, matched⟩ := startsToken_iff.mp starts
    exact (run_eq_nil_iff plain_idPattern).mp (fails _ member shorter) word rest' begins matched
  · rw [capture_text 1 rest, before]

/-- The first match of the whole pattern takes the longest label with a token, and captures the
token. -/
theorem reads_of_first {cursor final : Cursor} (first : First transactionIdRegex cursor final) :
    ∃ label separators token, Reads cursor.rest label separators token final.rest ∧
      final.groups 1 = some ⟨(label ++ separators).reverse ++ cursor.before, token⟩ := by
  obtain ⟨middle, reached, found, fails⟩ := First.longest longestFirst_labelPattern first
  obtain ⟨label, taken, split, before⟩ :=
    takes_of_mem_run labelPattern plain_labelPattern reached
  obtain ⟨separators, token, reads, group⟩ := readsToken_of_first found
  refine ⟨label, separators, token, ⟨?_, matches_labelPattern.mp taken, ?_, ?_⟩, ?_⟩
  · rw [split, reads.split]
  · rw [← reads.split]
    exact reads
  · intro other after again isLabel longer tokenAfter
    obtain ⟨before', text, groups⟩ := cursor
    obtain ⟨groups', member⟩ := @exists_mem_run_of_matches labelPattern before'
      other after groups (matches_labelPattern.mpr isLabel)
    obtain rfl : text = other ++ after := again
    have shorter : after.length < middle.rest.length := by
      have lengths := congrArg List.length split
      simp only [List.length_append] at lengths
      omega
    obtain ⟨word, rest, begins, matched⟩ := hasToken_iff.mp tokenAfter
    exact (run_eq_nil_iff plain_tokenPattern).mp (fails _ member shorter) word rest begins matched
  · rw [group, before, List.reverse_append, List.append_assoc]

/-- Where a labelled token begins, one is read. -/
theorem Reads.exists_of_labelled {text : List Char} (labelled : BeginsLabelled text) :
    ∃ label separators token rest, Reads text label separators token rest := by
  obtain ⟨final, first⟩ := (@exists_first_iff transactionIdRegex plain_transactionIdRegex
    (.start [] text)).mpr (beginsLabelled_iff.mp labelled)
  obtain ⟨label, separators, token, reads, -⟩ := reads_of_first first
  exact ⟨label, separators, token, final.rest, reads⟩

/-- What is read is there. -/
theorem ReadsToken.hasToken {text separators token rest : List Char}
    (reads : ReadsToken text separators token rest) : HasToken text :=
  ⟨separators, token ++ rest, reads.split, reads.separated, token, rest, rfl, reads.isToken,
    reads.long⟩

/-- Separators and token can be read in one way only. -/
theorem ReadsToken.unique {text separators token rest separators' token' rest' : List Char}
    (one : ReadsToken text separators token rest)
    (other : ReadsToken text separators' token' rest') :
    separators = separators' ∧ token = token' ∧ rest = rest' := by
  have same : separators ++ (token ++ rest) = separators' ++ (token' ++ rest') :=
    one.split.symm.trans other.split
  have lengths : separators.length = separators'.length := by
    apply Nat.le_antisymm
    · by_contra longer
      exact other.mostSeparators separators _ one.split one.separated (not_le.mp longer)
        ⟨token, rest, rfl, one.isToken, one.long⟩
    · by_contra longer
      exact one.mostSeparators separators' _ other.split other.separated (not_le.mp longer)
        ⟨token', rest', rfl, other.isToken, other.long⟩
  obtain ⟨rfl, tails⟩ := List.append_inj same lengths
  have lengths : token.length = token'.length :=
    Nat.le_antisymm (length_le_of_stops tails one.isToken other.stops)
      (length_le_of_stops tails.symm other.isToken one.stops)
  obtain ⟨rfl, rfl⟩ := List.append_inj tails lengths
  exact ⟨rfl, rfl, rfl⟩

/-- After the label that is read there is a token. -/
theorem Reads.hasToken {text label separators token rest : List Char}
    (reads : Reads text label separators token rest) :
    HasToken (separators ++ (token ++ rest)) := reads.reads.hasToken

/-- Label, separators and token can be read in one way only. -/
theorem Reads.unique {text label separators token rest label' separators' token' rest' : List Char}
    (one : Reads text label separators token rest)
    (other : Reads text label' separators' token' rest') :
    label = label' ∧ separators = separators' ∧ token = token' ∧ rest = rest' := by
  have same := one.split.symm.trans other.split
  have lengths : label.length = label'.length := by
    apply Nat.le_antisymm
    · by_contra longer
      exact other.longestLabel label _ one.split one.isLabel (not_le.mp longer) one.hasToken
    · by_contra longer
      exact one.longestLabel label' _ other.split other.isLabel (not_le.mp longer) other.hasToken
  obtain ⟨rfl, tails⟩ := List.append_inj same lengths
  have reads := one.reads
  rw [tails] at reads
  exact ⟨rfl, reads.unique other.reads⟩

/-! ## What is read in a text -/

/-- The pattern is matched at the first place where a labelled token begins, and nowhere else. -/
theorem exec_transactionIdRegex_iff {text : List Char} {final : Cursor} :
    transactionIdRegex.exec text = some final ↔ ∃ before rest, FirstLabelled text before rest ∧
      First transactionIdRegex (.start before.reverse rest) final := by
  rw [exec_eq_some_iff plain_transactionIdRegex]
  have none : ∀ later, (∀ word rest, later = word ++ rest → ¬ transactionIdRegex.Matches word) ↔
      ¬ BeginsLabelled later := by
    intro later
    rw [beginsLabelled_iff]
    simp only [not_exists, not_and]
  simp only [none]
  refine ⟨?_, ?_⟩
  · intro found
    obtain ⟨before, rest, split, first, earliest⟩ := found
    refine ⟨before, rest, ⟨split, ?_, earliest⟩, first⟩
    exact beginsLabelled_iff.mpr ((exists_first_iff plain_transactionIdRegex).mp ⟨final, first⟩)
  · intro found
    obtain ⟨before, rest, place, first⟩ := found
    exact ⟨before, rest, place.split, first, place.earliest⟩

/-- The captured id is the token that is read at the first place with a label. -/
theorem transactionIdCapture_eq_some_iff {text : List Char} {capture : Capture} :
    transactionIdCapture text = some capture ↔ ∃ before label separators token rest,
      ReadsId text before label separators token rest ∧
        capture = ⟨(label ++ separators).reverse ++ before.reverse, token⟩ := by
  rw [transactionIdCapture, Option.bind_eq_some_iff]
  refine ⟨?_, ?_⟩
  · intro found
    obtain ⟨final, found, group⟩ := found
    obtain ⟨before, rest, place, first⟩ := exec_transactionIdRegex_iff.mp found
    obtain ⟨label, separators, token, reads, captured⟩ := reads_of_first first
    obtain rfl : rest = label ++ (separators ++ (token ++ final.rest)) := reads.split
    refine ⟨before, label, separators, token, final.rest, ⟨place, reads⟩, ?_⟩
    exact Option.some.inj (group.symm.trans captured)
  · intro found
    obtain ⟨before, label, separators, token, rest, ⟨place, reads⟩, rfl⟩ := found
    obtain ⟨final, first⟩ := (@exists_first_iff transactionIdRegex plain_transactionIdRegex
      (.start before.reverse _)).mpr (beginsLabelled_iff.mp place.labelled)
    refine ⟨final, exec_transactionIdRegex_iff.mpr ⟨before, _, place, first⟩, ?_⟩
    obtain ⟨label', separators', token', reads', captured⟩ := reads_of_first first
    obtain ⟨rfl, rfl, rfl, -⟩ := reads'.unique reads
    exact captured

/-- The number that is found in a text is the captured one. -/
theorem transactionId_eq (rounding : ℚ → Option Number) (text : List Char) :
    (parseWithRegex rounding text).transactionId =
      (transactionIdCapture text).map fun capture => String.ofList capture.text := by
  rw [parseWithRegex, transactionIdCapture]
  cases transactionIdRegex.exec text with
  | none => rfl
  | some final =>
      simp only [Option.bind_some, Cursor.text, Option.map_map]
      rfl

/-- The token is found where it is the one that is read. -/
theorem ReadsId.finds_iff {text before label separators token rest : List Char}
    (reads : ReadsId text before label separators token rest) (rounding : ℚ → Option Number)
    (id : List Char) :
    (parseWithRegex rounding text).transactionId = some (String.ofList id) ↔ token = id := by
  have captured := transactionIdCapture_eq_some_iff.mpr ⟨_, _, _, _, _, reads, rfl⟩
  rw [transactionId_eq, captured, Option.map_some, Option.some_inj, String.ofList_inj]

/-! ## Labels -/

/-- Separators have no case. -/
theorem toLower_of_isSeparator {c : Char} (separator : isSeparator c = true) : c.toLower = c := by
  apply dif_neg
  intro upper
  have low : 65 ≤ c.toNat := upper.1
  have high : c.toNat ≤ 90 := upper.2
  simp only [isSeparator, isSpace, decide_eq_true_eq] at separator
  rcases separator with blank | rfl | rfl | rfl
  · omega
  · exact absurd low (by decide)
  · exact absurd low (by decide)
  · exact absurd low (by decide)

/-- What is no upper case letter has no lower case form. -/
theorem toLower_of_not_isUpper {c : Char} (lower : c.isUpper = false) : c.toLower = c := by
  apply dif_neg
  intro upper
  have capital : c.isUpper = true := decide_eq_true upper
  rw [lower] at capital
  cases capital

/-- A character is one of a token in either case. -/
theorem isIdChar_of_toLower {c : Char} (lower : isIdChar c.toLower = true) :
    isIdChar c = true := by
  cases upper : c.isUpper with
  | true =>
      have letter : (c.isUpper || c.isLower) = true := by rw [upper, Bool.true_or]
      have alphanumeric : (c.isAlpha || c.isDigit) = true := Bool.or_eq_true_iff.mpr (Or.inl letter)
      exact Bool.or_eq_true_iff.mpr (Or.inl alphanumeric)
  | false => rwa [toLower_of_not_isUpper upper] at lower

/-- Letters and digits are those of ASCII. -/
theorem toNat_of_isAlphanum {c : Char} (letter : c.isAlphanum = true) :
    65 ≤ c.toNat ∧ c.toNat ≤ 90 ∨ 97 ≤ c.toNat ∧ c.toNat ≤ 122 ∨ 48 ≤ c.toNat ∧ c.toNat ≤ 57 := by
  rcases Bool.or_eq_true_iff.mp (letter : (c.isAlpha || c.isDigit) = true) with letter | digit
  · rcases Bool.or_eq_true_iff.mp (letter : (c.isUpper || c.isLower) = true) with upper | lower
    · exact Or.inl (of_decide_eq_true upper)
    · have bounds := Bool.and_eq_true_iff.mp lower
      exact Or.inr (Or.inl ⟨of_decide_eq_true bounds.1, of_decide_eq_true bounds.2⟩)
  · have bounds := Bool.and_eq_true_iff.mp digit
    exact Or.inr (Or.inr ⟨of_decide_eq_true bounds.1, of_decide_eq_true bounds.2⟩)

/-- The spellings of a word are made of its letters. -/
theorem Spells.all_isIdChar {word : String} {letters : List Char} (spelt : Spells word letters)
    (letter : ∀ c ∈ word.toList, isIdChar c = true) : ∀ c ∈ letters, isIdChar c = true := by
  intro c member
  apply isIdChar_of_toLower
  exact letter _ (spelt ▸ List.mem_map_of_mem member)

/-- White space separates. -/
theorem isSeparator_of_isSpace {c : Char} (blank : isSpace c = true) : isSeparator c = true :=
  decide_eq_true (Or.inl blank)

/-- No letter of a word is a separator. -/
theorem Spells.not_separator {word : String} {letters : List Char} (spelt : Spells word letters)
    (letter : ∀ c ∈ word.toList, isSeparator c = false) :
    ∀ c ∈ letters, isSeparator c = false := by
  intro c member
  by_contra separator
  rw [Bool.not_eq_false] at separator
  have listed : c.toLower ∈ word.toList := spelt ▸ List.mem_map_of_mem member
  rw [toLower_of_isSeparator separator] at listed
  rw [letter c listed] at separator
  cases separator

/-- A word that is not empty has no empty spelling. -/
theorem Spells.ne_nil {word : String} {letters : List Char} (spelt : Spells word letters)
    (some : word.toList ≠ []) : letters ≠ [] := by
  intro none
  rw [none] at spelt
  exact some spelt.symm

/-- No separator stands where a word is spelt. -/
theorem Spells.head_not_separator {word : String} {letters rest : List Char}
    (spelt : Spells word letters) (letter : ∀ c ∈ word.toList, isSeparator c = false)
    (some : word.toList ≠ []) : ∀ c ∈ (letters ++ rest).head?, isSeparator c = false := by
  intro c head
  rw [List.head?_append_of_ne_nil _ (spelt.ne_nil some)] at head
  exact spelt.not_separator letter c (List.mem_of_mem_head? head)

/-- Nor does white space. -/
theorem Spells.head_not_space {word : String} {letters rest : List Char}
    (spelt : Spells word letters) (letter : ∀ c ∈ word.toList, isSeparator c = false)
    (some : word.toList ≠ []) : ∀ c ∈ (letters ++ rest).head?, isSpace c = false := by
  intro c head
  by_contra blank
  rw [Bool.not_eq_false] at blank
  have separator := isSeparator_of_isSpace blank
  rw [spelt.head_not_separator letter some c head] at separator
  cases separator

/-- What may follow a label in a longer one, blanks aside. -/
def continuations : List String := ["n", "id", "erence"]

/-- A label word that begins with another one goes on in one of three ways. -/
theorem suffixes_of_labelWords : ∀ short ∈ labelWords, ∀ long ∈ labelWords,
    short.toList <+: long.toList →
      long.toList.drop short.toList.length = [] ∨
        ∃ word ∈ continuations, long.toList.drop short.toList.length = word.toList := by
  decide

/-- These continuations are words without a separator. -/
theorem continuation_letters : ∀ word ∈ continuations,
    word.toList ≠ [] ∧ ∀ c ∈ word.toList, isSeparator c = false := by
  decide

/-- Of the label words only `transaction` itself is not apart from it. -/
theorem eq_transaction_of_not_apart : ∀ word ∈ labelWords,
    ¬ Apart word.toList "transaction".toList → word = "transaction" := by
  decide

/-- No label word has more than eleven letters. -/
theorem length_labelWords_le : ∀ word ∈ labelWords, word.toList.length ≤ 11 := by decide

/-- The letters after a label word within another label word spell the rest of it. -/
theorem Spells.append_more {short long : String} {label more : List Char}
    (front : Spells short label) (whole : Spells long (label ++ more)) :
    short.toList <+: long.toList ∧
      more.map Char.toLower = long.toList.drop short.toList.length := by
  rw [Spells, List.map_append, front] at whole
  rw [← whole]
  exact ⟨List.prefix_append _ _, (List.drop_left).symm⟩

/-- The word `id` has two letters. -/
theorem Spells.length_id {back : List Char} (spelt : Spells "id" back) : back.length = 2 :=
  spelt.length_eq

/-- How one label continues another. -/
theorem IsLabel.extends {label more : List Char} (short : IsLabel label)
    (long : IsLabel (label ++ more)) :
    more = [] ∨ ∃ blanks back, more = blanks ++ back ∧ (∀ c ∈ blanks, isSpace c = true) ∧
      (∃ word ∈ continuations, Spells word back) ∧
        (blanks ≠ [] → Spells "transaction" label ∧ Spells "id" back) := by
  generalize whole : label ++ more = letters at long
  cases long with
  | @word word _ listed spelt =>
      subst whole
      cases short with
      | @word word' _ listed' spelt' =>
          obtain ⟨before, rest⟩ := spelt'.append_more spelt
          have suffix := suffixes_of_labelWords word' listed' word listed before
          rw [← rest] at suffix
          rcases suffix with none | continues
          · exact Or.inl (List.map_eq_nil_iff.mp none)
          · exact Or.inr ⟨[], more, rfl, by simp, continues, fun some => absurd rfl some⟩
      | @transactionId front blanks back first blank second =>
          have most := length_labelWords_le word listed
          rw [← spelt.length_eq] at most
          have eleven : front.length = 11 := first.length_eq
          have two := second.length_id
          simp only [List.length_append] at most
          omega
  | @transactionId front blanks back first blank second =>
      cases short with
      | @word word' _ listed' spelt' =>
          have begins : Begins word' (front ++ (blanks ++ back)) := whole ▸ spelt'.begins more
          have same := eq_transaction_of_not_apart word' listed'
            (begins.not_apart (first.begins _))
          subst same
          have lengths : label.length = front.length := spelt'.length_eq.trans first.length_eq.symm
          obtain ⟨rfl, rfl⟩ := List.append_inj whole lengths
          exact Or.inr ⟨blanks, back, rfl, blank, ⟨"id", by decide, second⟩,
            fun _ => ⟨spelt', second⟩⟩
      | @transactionId front' blanks' back' first' blank' second' =>
          rw [List.append_assoc, List.append_assoc] at whole
          have lengths : front'.length = front.length := first'.length_eq.trans first.length_eq.symm
          obtain ⟨rfl, tails⟩ := List.append_inj whole lengths
          have blanksSame : blanks'.length = blanks.length := by
            apply Nat.le_antisymm
            · refine length_le_of_stops tails blank' ?_
              have stops := @Spells.head_not_space "id" back [] second (by decide) (by decide)
              rwa [List.append_nil] at stops
            · exact length_le_of_stops tails.symm blank
                (second'.head_not_space (by decide) (by decide))
          obtain ⟨-, ends⟩ := List.append_inj tails blanksSame
          have two := second.length_id
          have two' := second'.length_id
          rw [← ends, List.length_append] at two
          exact Or.inl (List.length_eq_zero_iff.mp (by omega))

end BirrTrack.Processing
