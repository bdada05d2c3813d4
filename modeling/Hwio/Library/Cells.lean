import Mathlib.Data.List.Induction
import Hwio.Library.Memory

/-!
Contract: memory that is addressed byte by byte.

Owns slices of such a memory, what it holds once bytes were put into it, and the
view of it in which a window comes first.
-/

namespace Hwio.Library

/-- A byte under every address. -/
abbrev Cells := Nat → Byte

namespace Cells

/-- The `count` bytes from `address` on. -/
def slice (cells : Cells) (address count : Nat) : List Byte :=
  (List.range' address count).map cells

/-- The bytes replace those from `address` on. -/
def put (cells : Cells) (address : Nat) (bytes : List Byte) : Cells := fun index =>
  if address ≤ index ∧ index < address + bytes.length then bytes.getD (index - address) 0
  else cells index

@[simp] theorem slice_length (cells : Cells) (address count : Nat) :
    (cells.slice address count).length = count := by
  rw [slice, List.length_map, List.length_range']

@[simp] theorem slice_zero (cells : Cells) (address : Nat) : cells.slice address 0 = [] := rfl

/-- A slice splits at any place. -/
theorem slice_add (cells : Cells) (address first second : Nat) :
    cells.slice address (first + second) =
      cells.slice address first ++ cells.slice (address + first) second := by
  rw [slice, slice, slice, ← List.map_append, List.range'_append_1]

@[simp] theorem put_nil (cells : Cells) (address : Nat) : cells.put address [] = cells := by
  funext index
  rw [put, List.length_nil, if_neg (by omega)]

/-- Bytes that are put one behind the other are put at once. -/
theorem put_append (cells : Cells) (address : Nat) (first second : List Byte) :
    (cells.put address first).put (address + first.length) second =
      cells.put address (first ++ second) := by
  funext index
  simp only [put, List.length_append]
  by_cases below : index < address + first.length
  · rw [if_neg (by omega)]
    by_cases inside : address ≤ index
    · rw [if_pos ⟨inside, below⟩, if_pos (by omega), List.getD_append _ _ _ _ (by omega)]
    · rw [if_neg (by omega), if_neg (by omega)]
  · by_cases inside : index < address + first.length + second.length
    · rw [if_pos (by omega), if_pos (by omega), List.getD_append_right _ _ _ _ (by omega)]
      congr 1
      omega
    · rw [if_neg (by omega), if_neg (by omega), if_neg (by omega)]

/-- What was put is there. -/
theorem slice_put (cells : Cells) (address : Nat) (bytes : List Byte) :
    (cells.put address bytes).slice address bytes.length = bytes := by
  apply List.ext_getElem
  · rw [slice_length]
  · intro index below inside
    rw [slice_length] at below
    simp only [slice, List.getElem_map, List.getElem_range', put]
    rw [if_pos (by omega), List.getD_eq_getElem _ _ (by omega)]
    congr 1
    omega

end Cells

/-! ## Patches -/

/-- Bytes, and the address that the first of them is put at. -/
structure Patch where
  address : Nat
  bytes : List Byte
deriving DecidableEq, Repr

/-- The byte that a patch has for an address. -/
def Patch.byteAt (patch : Patch) (index : Nat) : Option Byte :=
  if patch.address ≤ index then patch.bytes[index - patch.address]? else none

namespace Cells

/-- All patches are put, one after the other. -/
def patched (cells : Cells) (patches : List Patch) : Cells :=
  patches.foldl (fun cells patch => cells.put patch.address patch.bytes) cells

/-- The byte at an address is that of the last patch that has one for it, and
the one from before when none has. -/
def LastPut (cells : Cells) (patches : List Patch) (index : Nat) (byte : Byte) : Prop :=
  (∃ earlier patch later, patches = earlier ++ patch :: later ∧
      patch.byteAt index = some byte ∧ ∀ other ∈ later, other.byteAt index = none) ∨
    (∀ patch ∈ patches, patch.byteAt index = none) ∧ byte = cells index

theorem patched_append (cells : Cells) (first second : List Patch) :
    cells.patched (first ++ second) = (cells.patched first).patched second :=
  List.foldl_append

theorem put_eq_byteAt (cells : Cells) (patch : Patch) (index : Nat) :
    cells.put patch.address patch.bytes index = (patch.byteAt index).getD (cells index) := by
  unfold put Patch.byteAt
  by_cases above : patch.address ≤ index
  · rw [if_pos above]
    by_cases inside : index - patch.address < patch.bytes.length
    · rw [if_pos ⟨above, by omega⟩, List.getD_eq_getElem _ _ inside,
        List.getElem?_eq_getElem inside]
      rfl
    · rw [if_neg (by omega), List.getElem?_eq_none (Nat.le_of_not_lt inside)]
      rfl
  · rw [if_neg above, if_neg (by omega)]
    rfl

/-- Patches without a byte for an address leave the one that is there. -/
theorem patched_uncovered {cells : Cells} {patches : List Patch} {index : Nat}
    (uncovered : ∀ patch ∈ patches, patch.byteAt index = none) :
    cells.patched patches index = cells index := by
  induction patches generalizing cells with
  | nil => rfl
  | cons patch patches inductionHypothesis =>
      rw [List.forall_mem_cons] at uncovered
      have first := put_eq_byteAt cells patch index
      rw [uncovered.1, Option.getD_none] at first
      rw [← first]
      exact inductionHypothesis uncovered.2

/-- What is there in the end is what was put there last. -/
theorem lastPut_patched (cells : Cells) (patches : List Patch) (index : Nat) :
    cells.LastPut patches index (cells.patched patches index) := by
  induction patches using List.reverseRecOn with
  | nil => exact Or.inr ⟨List.forall_mem_nil _, rfl⟩
  | append_singleton patches last inductionHypothesis =>
      have byte : cells.patched (patches ++ [last]) index =
          (last.byteAt index).getD (cells.patched patches index) := by
        rw [patched_append]
        exact put_eq_byteAt _ last index
      rw [byte]
      cases covered : last.byteAt index with
      | some value =>
          exact Or.inl ⟨patches, last, [], rfl, covered, List.forall_mem_nil _⟩
      | none =>
          rcases inductionHypothesis with ⟨earlier, patch, later, split, found, uncovered⟩ |
            ⟨uncovered, same⟩
          · refine Or.inl ⟨earlier, patch, later ++ [last], ?_, found, ?_⟩
            · rw [split, List.append_assoc, List.cons_append]
            · rw [List.forall_mem_append, List.forall_mem_singleton]
              exact ⟨uncovered, covered⟩
          · refine Or.inr ⟨?_, same⟩
            rw [List.forall_mem_append, List.forall_mem_singleton]
            exact ⟨uncovered, covered⟩

/-- One byte was put there last. -/
theorem lastPut_iff {cells : Cells} {patches : List Patch} {index : Nat} {byte : Byte} :
    cells.LastPut patches index byte ↔ byte = cells.patched patches index := by
  constructor
  · rintro (⟨earlier, patch, later, rfl, found, uncovered⟩ | ⟨uncovered, same⟩)
    · rw [← List.singleton_append, patched_append, patched_append, patched_uncovered uncovered]
      have put := put_eq_byteAt (cells.patched earlier) patch index
      rw [found, Option.getD_some] at put
      exact put.symm
    · rw [same, patched_uncovered uncovered]
  · rintro rfl
    exact lastPut_patched cells patches index

/-- The bytes of a slice. -/
theorem getElem?_slice {cells : Cells} {address count i : Nat} {byte : Byte}
    (found : (cells.slice address count)[i]? = some byte) : byte = cells (address + i) := by
  obtain ⟨inside, same⟩ := List.getElem?_eq_some_iff.mp found
  rw [← same]
  simp only [slice, List.getElem_map, List.getElem_range', Nat.one_mul]

/-! ## Windows -/

/-- The memory with the bytes of a window first and all others behind them. -/
def window (cells : Cells) (base size : Nat) : Cells := fun index =>
  if index < size then cells (base + index)
  else if base ≤ index - size ∧ index - size < base + size then 0
  else cells (index - size)

/-- The view shows all of the memory. -/
theorem window_inj {first second : Cells} {base size : Nat}
    (same : first.window base size = second.window base size) : first = second := by
  funext index
  by_cases inside : base ≤ index ∧ index < base + size
  · have at_index := congrFun same (index - base)
    simp only [window] at at_index
    rwa [if_pos (by omega), if_pos (by omega), Nat.add_sub_cancel' inside.1] at at_index
  · have at_index := congrFun same (size + index)
    simp only [window, Nat.add_sub_cancel_left] at at_index
    rwa [if_neg (by omega), if_neg inside, if_neg (by omega), if_neg inside] at at_index

/-- What is put in the window is put there in the view. -/
theorem window_put (cells : Cells) {base size offset : Nat} {bytes : List Byte}
    (inside : offset + bytes.length ≤ size) :
    (cells.put (base + offset) bytes).window base size =
      (cells.window base size).put offset bytes := by
  funext index
  simp only [window, put]
  by_cases shown : index < size
  · rw [if_pos shown, if_pos shown]
    by_cases covered : offset ≤ index ∧ index < offset + bytes.length
    · rw [if_pos covered, if_pos (by omega), Nat.add_sub_add_left]
    · rw [if_neg covered, if_neg (by omega)]
  · rw [if_neg shown, if_neg shown, if_neg (show ¬(offset ≤ index ∧
      index < offset + bytes.length) by omega)]
    split
    · rfl
    · rw [if_neg (by omega)]

/-- A slice of the window. -/
theorem window_slice (cells : Cells) {base size offset count : Nat}
    (inside : offset + count ≤ size) :
    (cells.window base size).slice offset count = cells.slice (base + offset) count := by
  apply List.ext_getElem
  · rw [slice_length, slice_length]
  · intro index below _
    rw [slice_length] at below
    simp only [slice, List.getElem_map, List.getElem_range', window, Nat.one_mul]
    rw [if_pos (by omega), Nat.add_assoc]

end Cells

end Hwio.Library
