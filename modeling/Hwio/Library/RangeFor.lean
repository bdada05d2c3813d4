import Mathlib.Data.List.Basic

/-!
Contract: a range-based for over a vector that its body may change.

Owns the memory of the vector, the loop whose end is computed when it begins,
and the reduction of a sound traversal to rounds that keep the vector.

Does not own what the body does.  An element is read through an iterator into
the allocation in which the loop began.
-/

namespace Hwio.Library

/-- The memory of a vector: its allocation, and the room behind the last element. -/
structure Storage where
  allocation : Nat
  spare : Nat
deriving DecidableEq, Repr

/-- The memory of a vector whose length changes.  Where the room does not
suffice, the elements move to another allocation, with the room left there. -/
def Storage.resize (growth : Nat → Nat) (before after : Nat) (storage : Storage) : Storage :=
  if after ≤ before + storage.spare then
    ⟨storage.allocation, before + storage.spare - after⟩
  else ⟨storage.allocation + 1, growth after⟩

@[simp] theorem Storage.resize_self (growth : Nat → Nat) (length : Nat) (storage : Storage) :
    storage.resize growth length length = storage := by
  simp [resize]

/-- How a loop ends: behind its last round, in the midst of one, or at an
element that is not where the iterator points to any more. -/
inductive LoopExit (Stop : Type) where
  | finished
  | left (stop : Stop)
  | stale
deriving DecidableEq, Repr

/-- A loop between two rounds. -/
structure LoopState (State Item : Type) where
  state : State
  storage : Storage
  visited : List Item
  changed : Bool

section

variable {State Item Stop : Type} [DecidableEq Item]
variable (contents : State → List Item) (body : Nat → Item → State → Except Stop Unit × State)
variable (growth : Nat → Nat)

/-- The walk behind a round that leaves a state. -/
def LoopState.round (item : Item) (after : State) (walk : LoopState State Item) :
    LoopState State Item where
  state := after
  storage := walk.storage.resize growth (contents walk.state).length (contents after).length
  visited := walk.visited ++ [item]
  changed := walk.changed || decide (contents after ≠ contents walk.state)

/-- The rounds that are left, from an index on. -/
def loopRounds (began : Nat) :
    Nat → Nat → LoopState State Item → LoopExit Stop × LoopState State Item
  | 0, _, walk => (.finished, walk)
  | count + 1, index, walk =>
      if walk.storage.allocation = began then
        match (contents walk.state)[index]? with
        | none => (.stale, walk)
        | some item =>
          match body index item walk.state with
          | (.error stop, after) => (.left stop, walk.round contents growth item after)
          | (.ok (), after) =>
              loopRounds began count (index + 1) (walk.round contents growth item after)
      else (.stale, walk)

/-- `for (auto & item : contents)` -/
def rangeFor (storage : Storage) (state : State) : LoopExit Stop × LoopState State Item :=
  loopRounds contents body growth storage.allocation (contents state).length 0
    ⟨state, storage, [], false⟩

/-- A traversal that leaves the vector alone and visits each of its elements
once, in order, unless a round ends it early. -/
structure Sound (start : State) (ran : LoopExit Stop × LoopState State Item) : Prop where
  unchanged : ran.2.changed = false
  live : ran.1 ≠ .stale
  visited : ran.2.visited <+: contents start
  complete : ran.1 = .finished → ran.2.visited = contents start

/-- The rounds from an index on keep the vector, as far as they are reached. -/
def Steady : Nat → Nat → State → Prop
  | 0, _, _ => True
  | count + 1, index, state =>
      ∀ item, (contents state)[index]? = some item →
        contents (body index item state).2 = contents state ∧
          ((body index item state).1 = .ok () →
            Steady count (index + 1) (body index item state).2)

variable {contents} {body} {growth}

/-- Steady rounds visit the elements in front of the end, in their order. -/
theorem loopRounds_of_steady {count index : Nat} {walk : LoopState State Item}
    (steady : Steady contents body count index walk.state)
    (inside : index + count ≤ (contents walk.state).length) :
    let ran := loopRounds contents body growth walk.storage.allocation count index walk
    ran.2.changed = walk.changed ∧ ran.1 ≠ .stale ∧
      ∃ more, ran.2.visited = walk.visited ++ more ∧
        more <+: ((contents walk.state).drop index).take count ∧
        (ran.1 = .finished → more = ((contents walk.state).drop index).take count) := by
  induction count generalizing index walk with
  | zero =>
      refine ⟨rfl, ?_, [], (List.append_nil _).symm, List.nil_prefix, fun _ => rfl⟩
      intro stale
      cases stale
  | succ count inductionHypothesis =>
      have here : index < (contents walk.state).length := by omega
      have found := List.getElem?_eq_getElem here
      obtain ⟨same, later⟩ := steady _ found
      have split : ((contents walk.state).drop index).take (count + 1) =
          (contents walk.state)[index] :: ((contents walk.state).drop (index + 1)).take count := by
        rw [List.drop_eq_getElem_cons here, List.take_succ_cons]
      rcases ran : body index (contents walk.state)[index] walk.state with ⟨result, after⟩
      rw [ran] at same later
      have kept : contents after = contents walk.state := same
      simp only [loopRounds, if_pos, found, ran]
      rw [split]
      cases result with
      | error stop =>
          refine ⟨by simp [LoopState.round, kept], ?_, [(contents walk.state)[index]], rfl, ?_, ?_⟩
          · intro stale
            cases stale
          · exact List.prefix_append [_] _
          · intro finished
            cases finished
      | ok done =>
          have storage : (walk.round contents growth (contents walk.state)[index] after).storage =
              walk.storage := by
            simp [LoopState.round, kept]
          have rest := @inductionHypothesis (index + 1)
            (walk.round contents growth (contents walk.state)[index] after) (later rfl)
            (by simp only [LoopState.round, kept]; omega)
          rw [storage] at rest
          simp only at rest ⊢
          obtain ⟨changed, live, more, visited, early, whole⟩ := rest
          refine ⟨?_, live, (contents walk.state)[index] :: more, ?_, ?_, ?_⟩
          · rw [changed]
            simp [LoopState.round, kept]
          · rw [visited]
            simp [LoopState.round]
          · rw [List.prefix_cons_inj, ← kept]
            exact early
          · intro finished
            rw [whole finished]
            simp only [LoopState.round, kept]

/-- Once the vector has changed, it has changed. -/
theorem loopRounds_changed {began count index : Nat} {walk : LoopState State Item}
    (changed : walk.changed = true) :
    (loopRounds contents body growth began count index walk).2.changed = true := by
  induction count generalizing index walk with
  | zero => exact changed
  | succ count inductionHypothesis =>
      rw [loopRounds]
      split
      case isFalse => exact changed
      split
      next => exact changed
      next item _ =>
        have later : ∀ after, (walk.round contents growth item after).changed = true := by
          intro after
          simp [LoopState.round, changed]
        split
        · exact later _
        · exact inductionHypothesis (later _)

theorem steady_of_rounds {began count index : Nat} {walk : LoopState State Item}
    (unchanged : (loopRounds contents body growth began count index walk).2.changed = false)
    (live : (loopRounds contents body growth began count index walk).1 ≠ .stale) :
    Steady contents body count index walk.state := by
  induction count generalizing index walk with
  | zero => trivial
  | succ count inductionHypothesis =>
      intro item found
      rw [loopRounds] at unchanged live
      split at unchanged
      case isFalse inside =>
        rw [if_neg inside] at live
        exact absurd rfl live
      next inside =>
        rw [if_pos inside] at live
        simp only [found] at unchanged live
        rcases ran : body index item walk.state with ⟨result, after⟩
        simp only [ran] at unchanged live ⊢
        have same : ∀ walk' : LoopState State Item, walk' = walk.round contents growth item after →
            walk'.changed = false → contents after = contents walk.state := by
          intro walk' rounded still
          rw [rounded] at still
          simpa [LoopState.round] using (Bool.or_eq_false_iff.mp still).2
        cases result with
        | error stop => exact ⟨same _ rfl unchanged, fun returned => by cases returned⟩
        | ok done =>
            refine ⟨same _ rfl ?_, fun _ => inductionHypothesis unchanged live⟩
            by_contra changed
            have moved := @loopRounds_changed _ _ _ _ contents body growth began count (index + 1) _
              ((Bool.not_eq_false _).mp changed)
            rw [moved] at unchanged
            cases unchanged

/-- A traversal is sound just when its rounds keep the vector. -/
theorem rangeFor_sound_iff (storage : Storage) (state : State) :
    Sound contents state (rangeFor contents body growth storage state) ↔
      Steady contents body (contents state).length 0 state := by
  constructor
  · intro sound
    exact steady_of_rounds sound.unchanged sound.live
  · intro steady
    have ran := @loopRounds_of_steady _ _ _ _ contents body growth _ 0 ⟨state, storage, [], false⟩
      steady (Nat.le_of_eq (Nat.zero_add _))
    obtain ⟨unchanged, live, more, visited, early, whole⟩ := ran
    simp only [List.nil_append, List.drop_zero, List.take_length] at visited early whole
    refine ⟨unchanged, live, ?_, fun finished => ?_⟩
    · show (loopRounds _ _ _ _ _ _ _).2.visited <+: _
      rw [visited]
      exact early
    · show (loopRounds _ _ _ _ _ _ _).2.visited = _
      rw [visited]
      exact whole finished

end

end Hwio.Library
