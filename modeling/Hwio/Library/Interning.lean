import Mathlib.Data.Finset.Card
import Mathlib.Data.List.Nodup

/-!
Contract: tables that number items in the order in which they first appear.

Owns the table, its extension by a list of items, and the rules by which its
numbers are unambiguous and stay what they are.

Does not own any kind of item.
-/

namespace Hwio.Library

variable {Item : Type}

/-! ## Numbers -/

/-- An entry keeps its number when the table grows. -/
theorem getElem?_of_isPrefix {table later : List Item} (grown : table <+: later) {number : Nat}
    {item : Item} (entry : table[number]? = some item) : later[number]? = some item := by
  obtain ⟨more, rfl⟩ := grown
  obtain ⟨below, _⟩ := List.getElem?_eq_some_iff.mp entry
  rw [List.getElem?_append_left below]
  exact entry

/-- Numbers of one table are equal exactly when their items are. -/
theorem number_eq_iff {table : List Item} (distinct : table.Nodup) {first second : Nat}
    {left right : Item} (leftEntry : table[first]? = some left)
    (rightEntry : table[second]? = some right) : first = second ↔ left = right := by
  obtain ⟨leftBelow, rfl⟩ := List.getElem?_eq_some_iff.mp leftEntry
  obtain ⟨rightBelow, rfl⟩ := List.getElem?_eq_some_iff.mp rightEntry
  exact (distinct.getElem_inj_iff).symm

/-! ## Tables -/

variable [DecidableEq Item]

/-- The table with an item: behind the last one, unless it is there already. -/
def intern (table : List Item) (item : Item) : List Item :=
  if item ∈ table then table else table ++ [item]

/-- The table after a list of items. -/
def internAll (table : List Item) (items : List Item) : List Item := items.foldl intern table

/-- The items of a list that its table did not have before. -/
def newItems (table : List Item) : List Item → List Item
  | [] => []
  | item :: rest =>
      if item ∈ table then newItems table rest else item :: newItems (table ++ [item]) rest

theorem intern_of_mem {table : List Item} {item : Item} (known : item ∈ table) :
    intern table item = table := if_pos known

theorem intern_of_not_mem {table : List Item} {item : Item} (unknown : item ∉ table) :
    intern table item = table ++ [item] := if_neg unknown

theorem mem_intern_self (table : List Item) (item : Item) : item ∈ intern table item := by
  unfold intern
  split
  next known => exact known
  · exact List.mem_append_right _ (List.mem_singleton.mpr rfl)

theorem intern_nodup {table : List Item} (distinct : table.Nodup) (item : Item) :
    (intern table item).Nodup := by
  unfold intern
  split
  · exact distinct
  next unknown =>
    refine List.Nodup.append distinct (List.nodup_singleton item) ?_
    intro other member same
    rw [List.mem_singleton.mp same] at member
    exact unknown member

@[simp] theorem internAll_nil (table : List Item) : internAll table [] = table := rfl

@[simp] theorem internAll_cons (table : List Item) (item : Item) (rest : List Item) :
    internAll table (item :: rest) = internAll (intern table item) rest := rfl

/-- The table grows at its end, by the items that are new. -/
theorem internAll_eq_append (table items : List Item) :
    internAll table items = table ++ newItems table items := by
  induction items generalizing table with
  | nil => simp [newItems]
  | cons item rest inductionHypothesis =>
      rw [internAll_cons, newItems, inductionHypothesis]
      by_cases known : item ∈ table
      · rw [intern_of_mem known, if_pos known]
      · rw [intern_of_not_mem known, if_neg known, List.append_assoc, List.singleton_append]

theorem prefix_internAll (table items : List Item) : table <+: internAll table items := by
  rw [internAll_eq_append]
  exact List.prefix_append table _

theorem internAll_length_le (table items : List Item) :
    (internAll table items).length ≤ table.length + items.length := by
  induction items generalizing table with
  | nil => exact Nat.le_refl _
  | cons item rest inductionHypothesis =>
      have one : (intern table item).length ≤ table.length + 1 := by
        unfold intern
        split
        · exact Nat.le_succ _
        · exact Nat.le_of_eq List.length_append
      have more := inductionHypothesis (intern table item)
      rw [internAll_cons, List.length_cons]
      omega

theorem internAll_nodup {table : List Item} (distinct : table.Nodup) (items : List Item) :
    (internAll table items).Nodup := by
  induction items generalizing table with
  | nil => exact distinct
  | cons item rest inductionHypothesis => exact inductionHypothesis (intern_nodup distinct item)

theorem mem_internAll {table items : List Item} {item : Item} :
    item ∈ internAll table items ↔ item ∈ table ∨ item ∈ items := by
  induction items generalizing table with
  | nil => simp
  | cons head rest inductionHypothesis =>
      rw [internAll_cons, inductionHypothesis, List.mem_cons]
      have grown : item ∈ intern table head ↔ item ∈ table ∨ item = head := by
        unfold intern
        split
        next known =>
          constructor
          · exact Or.inl
          · rintro (old | rfl)
            · exact old
            · exact known
        · simp
      rw [grown, or_assoc]

/-- Items that are new and different are all appended. -/
theorem internAll_of_fresh {table items : List Item} (distinct : items.Nodup)
    (fresh : ∀ item ∈ items, item ∉ table) : internAll table items = table ++ items := by
  induction items generalizing table with
  | nil => rw [internAll_nil, List.append_nil]
  | cons item rest inductionHypothesis =>
      have apart := List.nodup_cons.mp distinct
      have later : ∀ other ∈ rest, other ∉ table ++ [item] := by
        intro other member known
        rcases List.mem_append.mp known with old | same
        · exact fresh other (List.mem_cons_of_mem item member) old
        · rw [List.mem_singleton.mp same] at member
          exact apart.1 member
      rw [internAll_cons, intern_of_not_mem (fresh item List.mem_cons_self),
        inductionHypothesis apart.2 later, List.append_assoc, List.singleton_append]

theorem idxOf_of_prefix {table later : List Item} (grown : table <+: later) {item : Item}
    (known : item ∈ table) : later.idxOf item = table.idxOf item := by
  obtain ⟨more, rfl⟩ := grown
  exact List.idxOf_append_of_mem known

/-- A table has no more entries than there are things to number. -/
theorem length_le_of_population {table : List Item} (distinct : table.Nodup)
    {population : Finset Item} (within : ∀ item ∈ table, item ∈ population) :
    table.length ≤ population.card := by
  rw [← List.toFinset_card_of_nodup distinct]
  apply Finset.card_le_card
  intro item member
  exact within item (List.mem_toFinset.mp member)

end Hwio.Library
