import BirrTrack.Foundation.Captures

/-! # The start of the OCR engine

`OCRService.__init__` calls the engine's constructor and, while that rejects an argument by its
name, drops the argument and calls again. The loop ends with any constructor; with one that
rejects exactly the arguments it does not know, it ends with the known ones.
-/

namespace BirrTrack.OcrService

open Backtracking Pattern

/-- The value of a keyword argument. -/
inductive InitArg where
  | bool (b : Bool)
  | str (s : List Char)
  deriving DecidableEq

/-- What the constructor of the engine raises: a `ValueError` with its text, or anything else. -/
inductive InitFailure where
  | valueError (text : List Char)
  | other
  deriving DecidableEq

def DEFAULT_LANGUAGE : List Char := "en".toList

/-- `ocr_init_args`, with distinct keys in the order of their insertion -/
def ocrInitArgs (language : List Char) : List (List Char × InitArg) :=
  [("use_angle_cls".toList, .bool true),
    ("lang".toList, .str language),
    ("use_gpu".toList, .bool false),
    ("show_log".toList, .bool false)]

def identifierStart (c : Char) : Bool := c.isAlpha || c = '_'

def identifierPart (c : Char) : Bool := c.isAlphanum || c = '_'

/-- `Unknown argument: ([A-Za-z_][A-Za-z0-9_]*)` -/
def UNKNOWN_ARGUMENT : Pattern :=
  .seq (concat ("Unknown argument: ".toList.map lit))
    (.group 1 (.seq (char identifierStart) (.star (char identifierPart))))

/-- The argument that a text reports. -/
def unknownArgument (text : List Char) : Option (List Char) :=
  (UNKNOWN_ARGUMENT.exec text).bind (·.text 1)

/-- `ocr_init_args.pop(key, None)` -/
def popped (args : List (List Char × InitArg)) (key : List Char) : List (List Char × InitArg) :=
  args.filter (·.1 ≠ key)

theorem length_popped {args : List (List Char × InitArg)} {key : List Char}
    (given : key ∈ args.map Prod.fst) : (popped args key).length < args.length := by
  obtain ⟨arg, member, rfl⟩ := List.mem_map.mp given
  exact List.length_filter_lt_length_iff_exists.mpr ⟨arg, member, by simp⟩

section Loop

variable {Engine : Type} (paddle : List (List Char × InitArg) → Except InitFailure Engine)

/-- The loop of `OCRService.__init__`. -/
def createEngine (args : List (List Char × InitArg)) : Except InitFailure Engine :=
  match paddle args with
  | .ok engine => .ok engine
  | .error .other => .error .other
  | .error (.valueError text) =>
      match unknownArgument text with
      | none => .error (.valueError text)
      | some key =>
          if _given : key ∈ args.map Prod.fst then createEngine (popped args key)
          else .error (.valueError text)
termination_by args.length
decreasing_by exact length_popped _given

/-- An argument is reported that was given. -/
def Reports (args : List (List Char × InitArg)) (key : List Char) : Prop :=
  key ∈ args.map Prod.fst ∧ ∃ text, paddle args = .error (.valueError text) ∧
    unknownArgument text = some key

/-- Each call but the last reports the argument that the next call is made without. -/
def Drops : List (List Char × InitArg) → List (List Char) → List (List Char × InitArg) → Prop
  | args, [], last => args = last
  | args, key :: keys, last => Reports paddle args key ∧ Drops (popped args key) keys last

variable {paddle} {args last : List (List Char × InitArg)} {key : List Char}

/-- A call without a report is the last one. -/
theorem createEngine_of_not_reports (unreported : ∀ key, ¬ Reports paddle args key) :
    createEngine paddle args = paddle args := by
  rw [createEngine]
  cases called : paddle args with
  | ok engine => rfl
  | error failure =>
      cases failure with
      | other => rfl
      | valueError text =>
          simp only
          split
          next => rfl
          next key reported =>
            exact dif_neg fun given => unreported key ⟨given, text, called, reported⟩

/-- After a report the loop goes on without the argument. -/
theorem createEngine_of_reports (reports : Reports paddle args key) :
    createEngine paddle args = createEngine paddle (popped args key) := by
  obtain ⟨given, text, called, reported⟩ := reports
  rw [createEngine, called]
  simp only [reported, given, ↓reduceDIte]

/-- Whatever the constructor does, the loop ends: it drops arguments that were reported one after
the other, each of them given, and what comes of it is the outcome of a call that reports none of
the arguments it was made with. -/
theorem createEngine_spec (paddle : List (List Char × InitArg) → Except InitFailure Engine)
    (args : List (List Char × InitArg)) :
    ∃ keys last, Drops paddle args keys last ∧ keys.length ≤ args.length ∧
      last = args.filter (·.1 ∉ keys) ∧ keys.Nodup ∧ (∀ key ∈ keys, key ∈ args.map Prod.fst) ∧
      createEngine paddle args = paddle last ∧ ∀ key, ¬ Reports paddle last key := by
  induction count : args.length using Nat.strong_induction_on generalizing args with
  | _ count ih =>
      by_cases reported : ∃ key, Reports paddle args key
      · obtain ⟨key, reports⟩ := reported
        have shorter := length_popped reports.1
        obtain ⟨keys, last, drops, few, rest, distinct, given, result, silent⟩ :=
          ih _ (count ▸ shorter) (popped args key) rfl
        have fresh : ∀ other ∈ keys, other ≠ key ∧ other ∈ args.map Prod.fst := by
          intro other member
          obtain ⟨arg, present, rfl⟩ := List.mem_map.mp (given other member)
          obtain ⟨original, apart⟩ := List.mem_filter.mp present
          exact ⟨of_decide_eq_true apart, List.mem_map_of_mem original⟩
        refine ⟨key :: keys, last, ⟨reports, drops⟩, ?_, ?_, ?_, ?_, ?_, silent⟩
        · rw [List.length_cons]
          omega
        · rw [rest, popped, List.filter_filter]
          apply List.filter_congr
          intro arg _
          simp only [List.mem_cons, not_or, Bool.decide_and, Bool.and_comm]
        · exact List.nodup_cons.mpr ⟨fun member => (fresh key member).1 rfl, distinct⟩
        · intro other member
          rcases List.mem_cons.mp member with rfl | later
          · exact reports.1
          · exact (fresh other later).2
        · rw [createEngine_of_reports reports, result]
      · have unreported : ∀ key, ¬ Reports paddle args key :=
          fun key reports => reported ⟨key, reports⟩
        refine ⟨[], args, rfl, Nat.zero_le _, ?_, List.nodup_nil, nofun,
          createEngine_of_not_reports unreported, unreported⟩
        simp

end Loop

/-! ## Constructors that know their arguments -/

def IsIdentifier (key : List Char) : Prop :=
  ∃ c rest, key = c :: rest ∧ identifierStart c = true ∧ ∀ d ∈ rest, identifierPart d = true

/-- A literal word matches itself. -/
theorem first_word (word : List Char) {before rest : List Char} {groups : ℕ → Option Capture} :
    First (concat (word.map lit)) ⟨before, word ++ rest, groups⟩
      ⟨word.reverse ++ before, rest, groups⟩ := by
  induction word generalizing before with
  | nil => exact first_empty _
  | cons c word ih =>
      have literal : First (lit c) ⟨before, c :: (word ++ rest), groups⟩
          ⟨c :: before, word ++ rest, groups⟩ := first_char (decide_eq_true rfl)
      rw [List.reverse_cons, List.append_assoc, List.singleton_append]
      cases word with
      | nil => exact literal
      | cons d word => exact literal.seq ih

/-- The library's report of an argument names it. -/
theorem unknownArgument_report {key : List Char} (identifier : IsIdentifier key) :
    unknownArgument ("Unknown argument: ".toList ++ key) = some key := by
  obtain ⟨c, rest, rfl, start, parts⟩ := identifier
  have name : ∀ {before : List Char} {groups : ℕ → Option Capture},
      First (.seq (char identifierStart) (.star (char identifierPart)))
        ⟨before, (c :: rest) ++ [], groups⟩ ⟨rest.reverse ++ c :: before, [], groups⟩ := by
    intro before groups
    exact (first_char start).seq
      (@first_star_char identifierPart (c :: before) rest [] groups parts nofun)
  have whole := (@first_word "Unknown argument: ".toList [] ((c :: rest) ++ []) fun _ => none).seq
    (name.group_word 1)
  rw [List.append_nil] at whole
  rw [unknownArgument, exec, UNKNOWN_ARGUMENT, scan_of_first whole, Option.bind_some]
  simp only [Cursor.text, Function.update_self, Option.map_some]

/-- A library that rejects an unsupported argument by its name, and otherwise constructs the engine
without a report of an argument it was given. -/
structure Checks {Engine : Type} (supported : List Char → Bool)
    (construct paddle : List (List Char × InitArg) → Except InitFailure Engine) : Prop where
  rejects : ∀ args, (∃ key ∈ args.map Prod.fst, supported key = false) →
    ∃ key ∈ args.map Prod.fst, supported key = false ∧
      paddle args = .error (.valueError ("Unknown argument: ".toList ++ key))
  accepts : ∀ args, (∀ key ∈ args.map Prod.fst, supported key = true) →
    paddle args = construct args ∧ ∀ key, ¬ Reports paddle args key

section Libraries

variable {Engine : Type} {supported : List Char → Bool}
  {construct paddle : List (List Char × InitArg) → Except InitFailure Engine}
  {args : List (List Char × InitArg)}

/-- In whatever order the library reports them, exactly the unsupported arguments are dropped. -/
theorem createEngine_checks (checks : Checks supported construct paddle)
    (identifiers : ∀ key ∈ args.map Prod.fst, IsIdentifier key) :
    createEngine paddle args = construct (args.filter fun arg => supported arg.1) := by
  induction count : args.length using Nat.strong_induction_on generalizing args with
  | _ count ih =>
      by_cases unsupported : ∃ key ∈ args.map Prod.fst, supported key = false
      · obtain ⟨key, given, rejected, called⟩ := checks.rejects args unsupported
        have reports : Reports paddle args key :=
          ⟨given, _, called, unknownArgument_report (identifiers key given)⟩
        have within : ∀ other ∈ (popped args key).map Prod.fst, IsIdentifier other := by
          intro other member
          obtain ⟨arg, present, rfl⟩ := List.mem_map.mp member
          exact identifiers arg.1 (List.mem_map_of_mem (List.mem_filter.mp present).1)
        have same : ((popped args key).filter fun arg => supported arg.1) =
            args.filter fun arg => supported arg.1 := by
          rw [popped, List.filter_filter]
          apply List.filter_congr
          intro arg _
          cases kept : supported arg.1 with
          | false => rfl
          | true =>
              have apart : arg.1 ≠ key := by
                rintro rfl
                rw [rejected] at kept
                cases kept
              simp only [apart, ne_eq, not_false_eq_true, decide_true, Bool.and_self]
        rw [createEngine_of_reports reports,
          ih _ (count ▸ length_popped given) within rfl, same]
      · have known : ∀ key ∈ args.map Prod.fst, supported key = true := by
          intro key given
          by_contra rejected
          exact unsupported ⟨key, given, by simpa using rejected⟩
        obtain ⟨called, silent⟩ := checks.accepts args known
        have all : (args.filter fun arg => supported arg.1) = args :=
          List.filter_eq_self.mpr fun arg member => known arg.1 (List.mem_map_of_mem member)
        rw [createEngine_of_not_reports silent, called, all]

end Libraries

theorem ocrInitArgs_identifiers (language : List Char) :
    ∀ key ∈ (ocrInitArgs language).map Prod.fst, IsIdentifier key := by
  intro key member
  simp only [ocrInitArgs, List.map_cons, List.map_nil, List.mem_cons, List.not_mem_nil,
    or_false] at member
  rcases member with rfl | rfl | rfl | rfl
  · exact ⟨'u', "se_angle_cls".toList, rfl, by decide, by decide⟩
  · exact ⟨'l', "ang".toList, rfl, by decide, by decide⟩
  · exact ⟨'u', "se_gpu".toList, rfl, by decide, by decide⟩
  · exact ⟨'s', "how_log".toList, rfl, by decide, by decide⟩

/-- `OCRService.__init__`, up to the engine that it keeps. -/
def ocrService {Engine : Type}
    (paddle : List (List Char × InitArg) → Except InitFailure Engine) (language : List Char) :
    Except InitFailure Engine := createEngine paddle (ocrInitArgs language)

/-- With every version of the library the engine is constructed from those of the four arguments
that the version supports. -/
theorem ocrService_checks {Engine : Type} {supported : List Char → Bool}
    {construct paddle : List (List Char × InitArg) → Except InitFailure Engine}
    (checks : Checks supported construct paddle) (language : List Char) :
    ocrService paddle language =
      construct ((ocrInitArgs language).filter fun arg => supported arg.1) :=
  createEngine_checks checks (ocrInitArgs_identifiers language)

/-- A version that knows the language only, and reports the last argument that it does not know. -/
def languageOnly (args : List (List Char × InitArg)) :
    Except InitFailure (List (List Char × InitArg)) :=
  match args.reverse.find? (·.1 ≠ "lang".toList) with
  | some arg => .error (.valueError ("Unknown argument: ".toList ++ arg.1))
  | none => .ok args

theorem languageOnly_checks :
    Checks (fun key => decide (key = "lang".toList)) .ok languageOnly where
  rejects args unsupported := by
    obtain ⟨key, given, rejected⟩ := unsupported
    obtain ⟨arg, member, rfl⟩ := List.mem_map.mp given
    have found : (args.reverse.find? (·.1 ≠ "lang".toList)).isSome = true :=
      List.find?_isSome.mpr ⟨arg, List.mem_reverse.mpr member, by simpa using rejected⟩
    obtain ⟨last, found⟩ := Option.isSome_iff_exists.mp found
    refine ⟨last.1, List.mem_map_of_mem (List.mem_reverse.mp (List.mem_of_find?_eq_some found)),
      by simpa using List.find?_some found, ?_⟩
    rw [languageOnly, found]
  accepts args known := by
    have none : args.reverse.find? (·.1 ≠ "lang".toList) = none := by
      rw [List.find?_eq_none]
      intro arg member
      simpa using known arg.1 (List.mem_map_of_mem (List.mem_reverse.mp member))
    have called : languageOnly args = .ok args := by rw [languageOnly, none]
    refine ⟨called, ?_⟩
    rintro key ⟨-, text, failed, -⟩
    rw [called] at failed
    cases failed

theorem languageOnly_ocrService :
    ocrService languageOnly DEFAULT_LANGUAGE =
      .ok ((ocrInitArgs DEFAULT_LANGUAGE).filter fun arg => arg.1 = "lang".toList) :=
  ocrService_checks languageOnly_checks DEFAULT_LANGUAGE

end BirrTrack.OcrService
