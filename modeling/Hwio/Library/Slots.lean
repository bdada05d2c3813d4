import Mathlib.Data.List.ReduceOption
import Mathlib.Data.List.Nodup

/-!
Contract: lists of slots that are empty or hold an item.

Owns the first empty slot, the placement of an item there or behind the last
slot, and the items that the slots hold.

Does not own what a slot is for.
-/

namespace Hwio.Library

variable {Item : Type}

def firstEmpty (slots : List (Option Item)) : Nat := slots.findIdx (· = none)

/-- The slots with an item in the first empty one, or in a new one. -/
def place (slots : List (Option Item)) (item : Item) : List (Option Item) :=
  if firstEmpty slots < slots.length then slots.set (firstEmpty slots) (some item)
  else slots ++ [some item]

theorem firstEmpty_le (slots : List (Option Item)) : firstEmpty slots ≤ slots.length :=
  List.findIdx_le_length

theorem firstEmpty_getElem {slots : List (Option Item)} (inside : firstEmpty slots < slots.length) :
    slots[firstEmpty slots] = none := by
  have found := List.findIdx_getElem (w := inside)
  exact of_decide_eq_true found

theorem none_mem_iff {slots : List (Option Item)} :
    none ∈ slots ↔ firstEmpty slots < slots.length := by
  unfold firstEmpty
  rw [List.findIdx_lt_length]
  simp

/-- The item is found where it was placed. -/
theorem place_getElem?_self (slots : List (Option Item)) (item : Item) :
    (place slots item)[firstEmpty slots]? = some (some item) := by
  unfold place
  split
  next inside => exact List.getElem?_set_self inside
  next outside =>
    have last : firstEmpty slots = slots.length :=
      Nat.le_antisymm (firstEmpty_le slots) (Nat.le_of_not_lt outside)
    rw [last, List.getElem?_append_right (Nat.le_refl _), Nat.sub_self]
    rfl

/-- Every other item stays where it is, and no other appears. -/
theorem place_getElem?_iff (slots : List (Option Item)) (item : Item) {index : Nat}
    {other : Item} :
    (place slots item)[index]? = some (some other) ↔
      (index = firstEmpty slots ∧ other = item) ∨ slots[index]? = some (some other) := by
  have empty : slots[firstEmpty slots]? ≠ some (some other) := by
    intro filled
    obtain ⟨inside, same⟩ := List.getElem?_eq_some_iff.mp filled
    rw [firstEmpty_getElem inside] at same
    cases same
  by_cases here : index = firstEmpty slots
  · rw [here, place_getElem?_self]
    simp [empty, eq_comm]
  · have elsewhere : (place slots item)[index]? = slots[index]? ∨
        slots.length ≤ index ∧ (place slots item)[index]? = none := by
      unfold place
      split
      next inside => exact Or.inl (List.getElem?_set_ne (Ne.symm here))
      next outside =>
        by_cases old : index < slots.length
        · exact Or.inl (List.getElem?_append_left old)
        · right
          have last : firstEmpty slots = slots.length :=
            Nat.le_antisymm (firstEmpty_le slots) (Nat.le_of_not_lt outside)
          refine ⟨Nat.le_of_not_lt old, List.getElem?_eq_none ?_⟩
          rw [List.length_append, List.length_singleton]
          omega
    rcases elsewhere with same | ⟨beyond, none⟩
    · rw [same]
      simp [here]
    · rw [none, List.getElem?_eq_none beyond]
      simp [here]

theorem place_length_of_mem {slots : List (Option Item)} (hole : none ∈ slots) (item : Item) :
    (place slots item).length = slots.length := by
  unfold place
  rw [if_pos (none_mem_iff.mp hole), List.length_set]

theorem place_length_of_not_mem {slots : List (Option Item)} (full : none ∉ slots) (item : Item) :
    (place slots item).length = slots.length + 1 := by
  unfold place
  rw [if_neg fun inside => full (none_mem_iff.mpr inside), List.length_append,
    List.length_singleton]

/-- An emptied slot holds nothing, and the others keep their items. -/
theorem set_none_getElem?_iff (slots : List (Option Item)) {empty index : Nat} {item : Item} :
    (slots.set empty none)[index]? = some (some item) ↔
      index ≠ empty ∧ slots[index]? = some (some item) := by
  by_cases same : empty = index
  · rw [same, List.getElem?_set_self']
    cases slots[index]? <;> simp
  · rw [List.getElem?_set_ne same]
    simp [Ne.symm same]

/-! ## The items -/

theorem mem_reduceOption_iff_getElem? {slots : List (Option Item)} {item : Item} :
    item ∈ slots.reduceOption ↔ ∃ index : Nat, slots[index]? = some (some item) := by
  rw [List.reduceOption_mem_iff, List.mem_iff_getElem?]

/-- Slots that never hold one item twice. -/
theorem reduceOption_nodup {slots : List (Option Item)}
    (unique : ∀ (first second : Nat) item, slots[first]? = some (some item) →
      slots[second]? = some (some item) → first = second) : slots.reduceOption.Nodup := by
  induction slots with
  | nil => exact List.nodup_nil
  | cons head rest inductionHypothesis =>
      have tail := inductionHypothesis fun first second item left right =>
        Nat.succ.inj (unique (first + 1) (second + 1) item left right)
      cases head with
      | none =>
          rw [List.reduceOption_cons_of_none]
          exact tail
      | some item =>
          rw [List.reduceOption_cons_of_some, List.nodup_cons]
          refine ⟨fun member => ?_, tail⟩
          obtain ⟨index, held⟩ := mem_reduceOption_iff_getElem?.mp member
          exact absurd (unique 0 (index + 1) item rfl held) (Nat.succ_ne_zero index).symm

section

variable {slots : List (Option Item)} {home : Item → Option Nat}
  (placed : ∀ (index : Nat) item, slots[index]? = some (some item) ↔ home item = some index)

include placed

theorem reduceOption_nodup_of_placed : slots.reduceOption.Nodup := by
  apply reduceOption_nodup
  intro first second item left right
  have same := ((placed first item).mp left).symm.trans ((placed second item).mp right)
  exact Option.some.inj same

/-- When an item has one slot, as many are taken as there are items that have one. -/
theorem reduceOption_length_of_placed {items : List Item} (once : items.Nodup)
    (all : ∀ item, item ∈ items ↔ ∃ index, home item = some index) :
    slots.reduceOption.length = items.length := by
  apply List.Perm.length_eq
  rw [List.perm_ext_iff_of_nodup (reduceOption_nodup_of_placed placed) once]
  intro item
  rw [mem_reduceOption_iff_getElem?, all item]
  exact exists_congr fun index => placed index item

end

theorem reduceOption_length_of_not_mem {slots : List (Option Item)} (full : none ∉ slots) :
    slots.reduceOption.length = slots.length := by
  induction slots with
  | nil => rfl
  | cons head rest inductionHypothesis =>
      rw [List.mem_cons, not_or] at full
      cases head with
      | none => exact absurd rfl full.1
      | some item =>
          rw [List.reduceOption_cons_of_some, List.length_cons, List.length_cons,
            inductionHypothesis full.2]

theorem countP_ne_none (slots : List (Option Item)) :
    slots.countP (· ≠ none) = slots.reduceOption.length := by
  induction slots with
  | nil => rfl
  | cons head rest inductionHypothesis =>
      cases head with
      | none =>
          rw [List.reduceOption_cons_of_none, ← inductionHypothesis]
          rfl
      | some item =>
          rw [List.reduceOption_cons_of_some, List.length_cons, ← inductionHypothesis]
          exact List.countP_cons_of_pos (by simp)

end Hwio.Library
