import Mathlib.Data.List.Sort
import Mathlib.Order.Basic

/-! # Pages of rows sorted by a key

Every page is cut from an ordering of its own: the rows by descending key, in any
order among rows with the same key. Where no cut between pages separates rows with
the same key, the pages hold every row once whatever these orderings are (`pages_perm`);
where one does, some orderings repeat a row (`exists_orders_not_nodup`). Pages that are cut
at other places than these, later ones never before earlier ones, miss or repeat a row
(`start_of_perm`).
-/

namespace Pages

variable {α κ : Type} [LinearOrder κ] {key : α → κ} {rows ordered : List α}

/-- The page of this number, counted from zero. -/
def page (limit number : ℕ) (ordered : List α) : List α :=
  (ordered.drop (number * limit)).take limit

/-- The pages 0 to `count - 1`, each cut from its own ordering. -/
def pages (limit count : ℕ) (orders : ℕ → List α) : List α :=
  (List.range count).flatMap fun number => page limit number (orders number)

/-- The rows in a descending order. -/
structure Ordering (key : α → κ) (rows ordered : List α) : Prop where
  perm : ordered.Perm rows
  sorted : ordered.Pairwise fun first second => key second ≤ key first

/-- How many rows have a larger key. -/
def newer (key : α → κ) (rows : List α) (row : α) : ℕ :=
  rows.countP fun other => key row < key other

/-- How many rows have the same key or a larger one. -/
def notOlder (key : α → κ) (rows : List α) (row : α) : ℕ :=
  rows.countP fun other => key row ≤ key other

/-- A cut after `boundary` rows separates rows with the same key, which stand in the
places from `newer` up to `notOlder`. -/
def Splits (key : α → κ) (rows : List α) (boundary : ℕ) : Prop :=
  ∃ row ∈ rows, newer key rows row < boundary ∧ boundary < notOlder key rows row

instance (boundary : ℕ) : Decidable (Splits key rows boundary) :=
  inferInstanceAs (Decidable (∃ row ∈ rows, _))

/-! ## Where a row stands -/

/-- Where a property holds of a front part of a list only, that part is as long as the
number of elements with the property. -/
theorem holds_iff_lt_countP {p : α → Bool} {list : List α} {index : ℕ} {a : α}
    (front : list.Pairwise fun first second => p second = true → p first = true)
    (there : list[index]? = some a) : p a = true ↔ index < list.countP p := by
  induction list generalizing index with
  | nil => cases there
  | cons head list ih =>
      obtain ⟨first, front⟩ := List.pairwise_cons.mp front
      by_cases holds : p head = true
      · rw [List.countP_cons_of_pos holds]
        cases index with
        | zero =>
            cases there
            exact iff_of_true holds (Nat.succ_pos _)
        | succ index =>
            rw [List.getElem?_cons_succ] at there
            rw [ih front there, Nat.add_lt_add_iff_right]
      · have none : ∀ other ∈ head :: list, ¬ p other = true := by
          intro other member
          rcases List.mem_cons.mp member with rfl | later
          · exact holds
          · exact fun found => holds (first other later found)
        rw [List.countP_eq_zero.mpr none]
        exact iff_of_false (none a (List.mem_of_getElem? there)) (Nat.not_lt_zero index)

theorem Ordering.newer_iff (ordering : Ordering key rows ordered) {index : ℕ} {row : α}
    (there : ordered[index]? = some row) (bound : α) :
    key bound < key row ↔ index < newer key rows bound := by
  have front : ordered.Pairwise fun first second =>
      decide (key bound < key second) = true → decide (key bound < key first) = true := by
    refine ordering.sorted.imp fun descends less => ?_
    exact decide_eq_true ((of_decide_eq_true less).trans_le descends)
  rw [newer, ← ordering.perm.countP_eq, ← holds_iff_lt_countP front there, decide_eq_true_eq]

theorem Ordering.notOlder_iff (ordering : Ordering key rows ordered) {index : ℕ} {row : α}
    (there : ordered[index]? = some row) (bound : α) :
    key bound ≤ key row ↔ index < notOlder key rows bound := by
  have front : ordered.Pairwise fun first second =>
      decide (key bound ≤ key second) = true → decide (key bound ≤ key first) = true := by
    refine ordering.sorted.imp fun descends less => ?_
    exact decide_eq_true ((of_decide_eq_true less).trans descends)
  rw [notOlder, ← ordering.perm.countP_eq, ← holds_iff_lt_countP front there, decide_eq_true_eq]

theorem newer_lt_length {row : α} (member : row ∈ rows) : newer key rows row < rows.length := by
  refine lt_of_le_of_ne List.countP_le_length fun all => ?_
  have less := List.countP_eq_length.mp all row member
  exact absurd (of_decide_eq_true less) (lt_irrefl _)

/-! ## Cuts between keys -/

/-- The rows before a cut that separates no rows with the same key are the same in every
ordering. -/
theorem Ordering.take_perm (ordering : Ordering key rows ordered) {boundary : ℕ}
    (between : ¬ Splits key rows boundary) :
    (ordered.take boundary).Perm (rows.filter fun row => newer key rows row < boundary) := by
  have before : ∀ row ∈ ordered.take boundary, decide (newer key rows row < boundary) = true := by
    intro row member
    obtain ⟨index, inside, rfl⟩ := List.mem_take_iff_getElem.mp member
    have there : ordered[index]? = some ordered[index] :=
      List.getElem?_eq_getElem (by omega)
    have place := (ordering.newer_iff there ordered[index]).not.mp (lt_irrefl _)
    exact decide_eq_true (by omega)
  have after : ∀ row ∈ ordered.drop boundary, ¬ decide (newer key rows row < boundary) = true := by
    intro row member
    obtain ⟨index, inside, rfl⟩ := List.mem_drop_iff_getElem.mp member
    have there : ordered[boundary + index]? = some ordered[boundary + index] :=
      List.getElem?_eq_getElem (by omega)
    have place := (ordering.notOlder_iff there ordered[boundary + index]).mp le_rfl
    rw [decide_eq_true_eq]
    intro less
    exact between ⟨_, ordering.perm.mem_iff.mp (List.mem_of_getElem? there), less, by omega⟩
  have front : ordered.filter (fun row => newer key rows row < boundary) =
      ordered.take boundary := by
    calc ordered.filter (fun row => newer key rows row < boundary)
        = (ordered.take boundary ++ ordered.drop boundary).filter _ := by
          rw [List.take_append_drop]
      _ = ordered.take boundary := by
          rw [List.filter_append, List.filter_eq_self.mpr before, List.filter_eq_nil_iff.mpr after,
            List.append_nil]
  rw [← front]
  exact ordering.perm.filter _

/-- Pages cut between keys hold the rows up to the last cut. -/
theorem pages_perm_filter {limit : ℕ} (between : ∀ number, ¬ Splits key rows (number * limit))
    {orders : ℕ → List α} (orderings : ∀ number, Ordering key rows (orders number)) (count : ℕ) :
    (pages limit count orders).Perm
      (rows.filter fun row => newer key rows row < count * limit) := by
  induction count with
  | zero =>
      rw [List.filter_eq_nil_iff.mpr fun row _ => by
        simp only [Nat.zero_mul, Nat.not_lt_zero, decide_false, Bool.false_eq_true,
          not_false_eq_true]]
      exact List.Perm.refl []
  | succ count ih =>
      have cut := (orderings count).take_perm (between (count + 1))
      have earlier := (orderings count).take_perm (between count)
      rw [Nat.succ_mul, List.take_add] at cut
      rw [pages, List.range_succ, List.flatMap_append, List.flatMap_singleton, Nat.succ_mul]
      exact ((ih.trans earlier.symm).append_right _).trans cut

theorem pages_perm {limit count : ℕ} (between : ∀ number, ¬ Splits key rows (number * limit))
    (enough : rows.length ≤ count * limit) {orders : ℕ → List α}
    (orderings : ∀ number, Ordering key rows (orders number)) :
    (pages limit count orders).Perm rows := by
  have all : rows.filter (fun row => newer key rows row < count * limit) = rows :=
    List.filter_eq_self.mpr fun row member =>
      decide_eq_true ((newer_lt_length member).trans_le enough)
  exact all ▸ pages_perm_filter between orderings count

/-! ## Cuts through a key -/

theorem mem_drop_take {limit first place : ℕ} {list : List α} {a : α}
    (there : list[place]? = some a) (low : first ≤ place) (high : place < first + limit) :
    a ∈ (list.drop first).take limit := by
  have here : ((list.drop first).take limit)[place - first]? = some a := by
    rw [List.getElem?_take_of_lt (by omega), List.getElem?_drop, Nat.add_sub_cancel' low, there]
  exact List.mem_of_getElem? here

theorem mem_page {limit number index : ℕ} {row : α} (there : ordered[index]? = some row)
    (low : number * limit ≤ index) (high : index < (number + 1) * limit) :
    row ∈ page limit number ordered :=
  mem_drop_take there low (Nat.succ_mul number limit ▸ high)

/-- Every list has an ordering. -/
theorem exists_ordering (key : α → κ) (rows : List α) : ∃ ordered, Ordering key rows ordered := by
  refine ⟨rows.mergeSort fun first second => key second ≤ key first, List.mergeSort_perm _ _, ?_⟩
  refine (List.pairwise_mergeSort ?_ ?_ rows).imp of_decide_eq_true
  · intro first second third before after
    exact decide_eq_true ((of_decide_eq_true after).trans (of_decide_eq_true before))
  · intro first second
    rw [Bool.or_eq_true, decide_eq_true_eq, decide_eq_true_eq]
    exact le_total _ _

/-- A cut through a key lets a row come last before it in one ordering and first after
it in another. -/
theorem exists_orderings_of_splits {boundary : ℕ} (splits : Splits key rows boundary) :
    ∃ row first second, Ordering key rows first ∧ Ordering key rows second ∧
      first[boundary - 1]? = some row ∧ second[boundary]? = some row ∧ 0 < boundary ∧
        boundary < rows.length := by
  obtain ⟨bound, -, low, high⟩ := splits
  obtain ⟨ordered, ordering⟩ := exists_ordering key rows
  have fits : notOlder key rows bound ≤ rows.length := List.countP_le_length
  have length := ordering.perm.length_eq
  obtain ⟨index, rfl⟩ : ∃ index, boundary = index + 1 := ⟨boundary - 1, by omega⟩
  have same : ∀ place, (inside : place < ordered.length) → newer key rows bound ≤ place →
      place < notOlder key rows bound → key ordered[place] = key bound := by
    intro place inside above below
    have there : ordered[place]? = some ordered[place] := List.getElem?_eq_getElem inside
    exact le_antisymm (not_lt.mp ((ordering.newer_iff there bound).not.mpr (by omega)))
      ((ordering.notOlder_iff there bound).mpr below)
  have first := same index (by omega) (by omega) (by omega)
  have second := same (index + 1) (by omega) (by omega) high
  have split : ordered = ordered.take index ++
      ordered[index] :: ordered[index + 1] :: ordered.drop (index + 2) := by
    rw [← List.drop_eq_getElem_cons, ← List.drop_eq_getElem_cons, List.take_append_drop]
  let swapped := ordered.take index ++
    ordered[index + 1] :: ordered[index] :: ordered.drop (index + 2)
  have exchanged : Ordering key rows swapped := by
    refine ⟨List.Perm.trans ?_ ordering.perm, ?_⟩
    · exact ((List.Perm.swap _ _ _).append_left _).trans (List.Perm.of_eq split.symm)
    · -- The keys are the same as in the first ordering.
      have keys : swapped.map key = ordered.map key := by
        conv_rhs => rw [split]
        simp only [swapped, List.map_append, List.map_cons, first, second]
      have sorted : (ordered.map key).Pairwise fun first second => second ≤ first :=
        List.pairwise_map.mpr ordering.sorted
      rw [← keys] at sorted
      exact List.pairwise_map.mp sorted
  have front : (ordered.take index).length = index := by
    rw [List.length_take]
    omega
  refine ⟨ordered[index], ordered, swapped, ordering, exchanged, ?_, ?_, Nat.succ_pos index,
    by omega⟩
  · exact List.getElem?_eq_getElem (by omega)
  · rw [List.getElem?_append_right (by omega), front, Nat.add_sub_cancel_left]
    rfl

/-- Where a cut between pages separates rows with the same key, two orderings put one of
them on both pages. -/
theorem exists_orders_not_nodup {limit count number : ℕ} (positive : 0 < limit)
    (enough : rows.length ≤ count * limit) (splits : Splits key rows (number * limit)) :
    ∃ orders : ℕ → List α, (∀ number, Ordering key rows (orders number)) ∧
      ¬ (pages limit count orders).Nodup := by
  obtain ⟨row, first, second, ordering, ordering', last, start, cut, inside⟩ :=
    exists_orderings_of_splits splits
  obtain ⟨previous, rfl⟩ : ∃ previous, number = previous + 1 :=
    ⟨number - 1, by have := Nat.pos_of_mul_pos_right cut; omega⟩
  have width : (previous + 1) * limit = previous * limit + limit := Nat.succ_mul previous limit
  have next : (previous + 1 + 1) * limit = (previous + 1) * limit + limit := Nat.succ_mul _ limit
  have before : row ∈ page limit previous first := mem_page last (by omega) (by omega)
  have after : row ∈ page limit (previous + 1) second := mem_page start le_rfl (by omega)
  let orders : ℕ → List α := fun number => if number = previous then first else second
  refine ⟨orders, ?_, ?_⟩
  · intro number
    by_cases here : number = previous
    · simpa only [orders, here, ↓reduceIte] using ordering
    · simpa only [orders, here, ↓reduceIte] using ordering'
  · intro nodup
    have within : previous + 1 < count := Nat.lt_of_mul_lt_mul_right (inside.trans_le enough)
    obtain ⟨-, apart⟩ := List.nodup_flatMap.mp nodup
    rw [List.pairwise_iff_getElem] at apart
    have disjoint := apart previous (previous + 1) (by rw [List.length_range]; omega)
      (by rw [List.length_range]; omega) (Nat.lt_succ_self previous)
    simp only [Function.onFun, List.getElem_range, orders, ↓reduceIte, Nat.succ_ne_self] at disjoint
    exact disjoint before after

/-! ## Pages that begin elsewhere -/

/-- The pages 0 to `count - 1` of one list, each from the place where it starts; one without
such a place is empty. -/
def pagesAt (limit count : ℕ) (start : ℕ → Option ℕ) (list : List α) : List α :=
  (List.range count).flatMap fun number =>
    (start number).elim [] fun first => (list.drop first).take limit

/-- In a list without repetitions an element is on the page that holds its place. -/
theorem bounds_of_mem_drop_take {limit first place : ℕ} {list : List α} {a : α}
    (nodup : list.Nodup) (there : list[place]? = some a)
    (member : a ∈ (list.drop first).take limit) : first ≤ place ∧ place < first + limit := by
  obtain ⟨index, inside, same⟩ := List.mem_take_iff_getElem.mp member
  rw [List.length_drop] at inside
  rw [List.getElem_drop] at same
  obtain ⟨bound, value⟩ := List.getElem?_eq_some_iff.mp there
  have place : first + index = place := nodup.getElem_inj_iff.mp (same.trans value.symm)
  omega

/-- Pages that hold every element once, and of which no later one starts before an earlier one,
start where they should. -/
theorem start_of_perm {limit count : ℕ} {start : ℕ → Option ℕ} {list : List α}
    (positive : 0 < limit) (nodup : list.Nodup)
    (mono : ∀ number later last, number ≤ later → start later = some last →
      ∃ first ≤ last, start number = some first)
    (partition : (pagesAt limit count start list).Perm list) (number : ℕ)
    (inside : number * limit < list.length) : start number = some (number * limit) := by
  induction number using Nat.strong_induction_on with
  | _ number ih =>
      -- The page that holds the place where this one should start.
      have there := List.getElem?_eq_getElem inside
      obtain ⟨later, within, here⟩ := List.mem_flatMap.mp
        (partition.mem_iff.mpr (List.getElem_mem inside))
      cases last : start later with
      | none =>
          rw [last] at here
          exact absurd here List.not_mem_nil
      | some place =>
          rw [last, Option.elim_some] at here
          obtain ⟨low, high⟩ := bounds_of_mem_drop_take nodup there here
          have order : number ≤ later := by
            by_contra earlier
            have width : (later + 1) * limit ≤ number * limit :=
              Nat.mul_le_mul_right limit (by omega)
            rw [Nat.succ_mul] at width
            cases (ih later (by omega) (by omega)).symm.trans last
            omega
          obtain ⟨first, before, starts⟩ := mono number later place order last
          rcases (before.trans low).eq_or_lt with rfl | less
          · exact starts
          · -- An element before that place is on an earlier page, too.
            exfalso
            have previous : first / limit < number := Nat.div_lt_of_lt_mul (Nat.mul_comm _ _ ▸ less)
            have split := Nat.div_add_mod' first limit
            have rest := Nat.mod_lt first positive
            have starts' := ih (first / limit) previous (by omega)
            have there' := List.getElem?_eq_getElem (less.trans inside)
            have onBoth := (List.nodup_flatMap.mp (partition.nodup_iff.mpr nodup)).2
            rw [List.pairwise_iff_getElem] at onBoth
            rw [List.mem_range] at within
            have apart := onBoth (first / limit) number (by rw [List.length_range]; omega)
              (by rw [List.length_range]; omega) previous
            simp only [Function.onFun, List.getElem_range, starts, starts', Option.elim_some]
              at apart
            exact apart (mem_drop_take there' (by omega) (by omega))
              (mem_drop_take there' le_rfl (by omega))

end Pages
