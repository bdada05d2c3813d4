import Mathlib.Data.List.Basic

/-!
Contract: the removal of cells of an array in place.

Owns the search for the first cell to remove, the loop that moves the others to
the front, and the array that this leaves.

Does not own why a cell is removed.  The predicate sees places only: a cell is
tested where it was, before anything is moved there.
-/

namespace Hwio.Library

variable {Cell : Type}

/-- From place `first` on, `count` cells are tested, and those that stay are
moved to the places from `result` on. -/
def moveKept (remove : Nat → Bool) : Nat → Nat → Nat → List Cell → List Cell × Nat
  | 0, _, result, cells => (cells, result)
  | count + 1, first, result, cells =>
      if remove first then moveKept remove count (first + 1) result cells
      else
        match cells[first]? with
        | some cell => moveKept remove count (first + 1) (result + 1) (cells.set result cell)
        | none => (cells, result)

/-- `std::remove_if`: the array behind it, and the new end. -/
def removeIf (remove : Nat → Bool) (cells : List Cell) : List Cell × Nat :=
  let first := (List.range cells.length).findIdx remove
  if first = cells.length then (cells, first)
  else moveKept remove (cells.length - (first + 1)) (first + 1) first cells

/-- The cells that stay, of those from a place on. -/
def kept (remove : Nat → Bool) : Nat → List Cell → List Cell
  | _, [] => []
  | place, cell :: rest =>
      if remove place then kept remove (place + 1) rest else cell :: kept remove (place + 1) rest

section

variable (remove : Nat → Bool)

theorem kept_append (place : Nat) (front back : List Cell) :
    kept remove place (front ++ back) =
      kept remove place front ++ kept remove (place + front.length) back := by
  induction front generalizing place with
  | nil => rfl
  | cons cell rest inductionHypothesis =>
      rw [List.cons_append, kept, kept, inductionHypothesis, List.length_cons, Nat.add_assoc,
        Nat.add_comm 1]
      split
      · rfl
      · rfl

theorem kept_of_all {place : Nat} {cells : List Cell}
    (stay : ∀ index, index < cells.length → remove (place + index) = false) :
    kept remove place cells = cells := by
  induction cells generalizing place with
  | nil => rfl
  | cons cell rest inductionHypothesis =>
      have first : remove place = false := stay 0 (Nat.succ_pos _)
      rw [kept, if_neg (by simp [first]), inductionHypothesis]
      intro index below
      have later := stay (index + 1) (Nat.succ_lt_succ below)
      rw [Nat.add_right_comm]
      exact later

theorem mem_kept_iff {place : Nat} {cells : List Cell} {cell : Cell} :
    cell ∈ kept remove place cells ↔
      ∃ index, cells[index]? = some cell ∧ remove (place + index) = false := by
  induction cells generalizing place with
  | nil => simp [kept]
  | cons first rest inductionHypothesis =>
      have later : (∃ index, (first :: rest)[index + 1]? = some cell ∧
          remove (place + (index + 1)) = false) ↔ cell ∈ kept remove (place + 1) rest := by
        simp only [inductionHypothesis, List.getElem?_cons_succ, Nat.add_right_comm place 1,
          Nat.add_assoc]
      rw [kept, Nat.or_exists_add_one.symm, later, List.getElem?_cons_zero, Option.some.injEq,
        Nat.add_zero]
      by_cases removed : remove place = true
      · rw [if_pos removed]
        simp [removed]
      · rw [if_neg removed, List.mem_cons]
        simp [Bool.eq_false_iff.mpr removed, eq_comm]

/-- The loop has some kept cells in front, and behind them the array as it was. -/
theorem moveKept_eq (cells front : List Cell) {count first : Nat}
    (behind : front.length ≤ first) (rest : first + count = cells.length) :
    moveKept remove count first front.length (front ++ cells.drop front.length) =
      (front ++ kept remove first (cells.drop first) ++
        cells.drop (front ++ kept remove first (cells.drop first)).length,
        (front ++ kept remove first (cells.drop first)).length) := by
  induction count generalizing first front with
  | zero =>
      have done : cells.drop first = [] := List.drop_eq_nil_of_le (by omega)
      rw [moveKept, done, kept, List.append_nil]
  | succ count inductionHypothesis =>
      have inside : first < cells.length := by omega
      rw [moveKept, List.drop_eq_getElem_cons inside, kept]
      split
      next removed =>
        exact inductionHypothesis front (Nat.le_succ_of_le behind) (by omega)
      next stays =>
        have read : (front ++ cells.drop front.length)[first]? = some cells[first] := by
          rw [List.getElem?_append_right behind, List.getElem?_drop, Nat.add_sub_cancel' behind,
            List.getElem?_eq_getElem inside]
        have moved : (front ++ cells.drop front.length).set front.length cells[first] =
            (front ++ [cells[first]]) ++ cells.drop (front ++ [cells[first]]).length := by
          rw [List.set_append_right _ _ (Nat.le_refl _), Nat.sub_self,
            List.drop_eq_getElem_cons (Nat.lt_of_le_of_lt behind inside), List.set_cons_zero,
            List.length_append, List.length_singleton, List.append_assoc]
          rfl
        have longer : (front ++ [cells[first]]).length ≤ first + 1 := by
          rw [List.length_append, List.length_singleton]
          exact Nat.succ_le_succ behind
        have later := inductionHypothesis (front ++ [cells[first]]) longer (by omega)
        rw [read]
        simp only
        rw [moved]
        rw [List.length_append, List.length_singleton] at later
        rw [List.length_append, List.length_singleton, later]
        simp only [List.append_assoc, List.singleton_append]

/-- The cells that stay are at the front in their order, and behind them the
array is as it was. -/
theorem removeIf_eq (cells : List Cell) :
    removeIf remove cells =
      (kept remove 0 cells ++ cells.drop (kept remove 0 cells).length,
        (kept remove 0 cells).length) := by
  rw [removeIf]
  have bound : (List.range cells.length).findIdx remove ≤ cells.length := by
    have bounded := @List.findIdx_le_length _ remove (List.range cells.length)
    rw [List.length_range] at bounded
    exact bounded
  have before : ∀ index, index < (List.range cells.length).findIdx remove →
      remove index = false := by
    intro index below
    have tested := List.not_of_lt_findIdx below
    rw [List.getElem_range] at tested
    exact tested
  have found : (List.range cells.length).findIdx remove < cells.length →
      remove ((List.range cells.length).findIdx remove) = true := by
    intro below
    have tested := @List.findIdx_getElem _ remove (List.range cells.length)
      (by rw [List.length_range]; exact below)
    rw [List.getElem_range] at tested
    exact tested
  generalize (List.range cells.length).findIdx remove = first at bound before found
  by_cases none : first = cells.length
  · have all : kept remove 0 cells = cells := by
      apply kept_of_all
      intro index below
      rw [Nat.zero_add]
      exact before index (none ▸ below)
    rw [if_pos none, all, List.drop_length, List.append_nil, none]
  · have inside : first < cells.length := Nat.lt_of_le_of_ne bound none
    have length : (cells.take first).length = first := List.length_take_of_le bound
    have front : kept remove 0 (cells.take first) = cells.take first := by
      apply kept_of_all
      intro index below
      rw [Nat.zero_add]
      exact before index (by omega)
    have split : kept remove 0 cells = cells.take first ++ kept remove (first + 1) (cells.drop (first + 1)) := by
      calc kept remove 0 cells
          = kept remove 0 (cells.take first ++ cells.drop first) := by rw [List.take_append_drop]
        _ = cells.take first ++ kept remove first (cells.drop first) := by
            rw [kept_append, front, length, Nat.zero_add]
        _ = cells.take first ++ kept remove (first + 1) (cells.drop (first + 1)) := by
            rw [List.drop_eq_getElem_cons inside, kept, if_pos (found inside)]
    have moved := @moveKept_eq _ remove cells (cells.take first) (cells.length - (first + 1))
      (first + 1) (by omega) (by omega)
    rw [length, List.take_append_drop] at moved
    rw [if_neg none, moved, split]

end

end Hwio.Library
