import Mathlib.Data.List.Forall2
import Hwio.Bus.Matching

/-!
Contract: the comparison of two devices, from `ihwio_dev.h`.

Owns `operator==` of devices, its result for devices with as many
specifications, and when the two sides of a comparison can be exchanged.

Does not own the match of one specification against a pattern.
-/

namespace Hwio

open Library

/-! ## Both sides as the pattern -/

/-- Versions that match each other are the same. -/
theorem HwioVersion.matches_antisymm {version other : HwioVersion}
    (left : version.matches other = true) (right : other.matches version = true) :
    version = other := by
  rw [HwioVersion.matches_iff] at left right
  have component : ∀ {first second : Int32}, (second = -1 ∨ second = first) →
      (first = -1 ∨ first = second) → first = second := by
    rintro first second (wild | same) (wild' | same')
    · rw [wild, wild']
    · exact same'
    · exact same.symm
    · exact same.symm
  have major := component left.1 right.1
  have minor := component left.2.1 right.2.1
  have subminor := component left.2.2 right.2.2
  cases version
  cases other
  simp only at major minor subminor
  rw [major, minor, subminor]

/-- Two specifications that are compared by their names, or have one version. -/
def HwioCompSpec.SameVersion (spec other : HwioCompSpec) : Prop :=
  (spec.name ≠ [] ∧ other.name ≠ []) ∨ spec.version = other.version

instance (spec other : HwioCompSpec) : Decidable (spec.SameVersion other) :=
  inferInstanceAs (Decidable (_ ∨ _))

/-- A match can be turned around just when the version is no pattern in it. -/
theorem HwioCompSpec.matches_swap_iff {spec other : HwioCompSpec}
    (found : spec.matches other = true) :
    other.matches spec = true ↔ spec.SameVersion other := by
  rw [HwioCompSpec.matches_iff] at found
  rw [HwioCompSpec.matches_iff, SameVersion]
  by_cases named : spec.name ≠ [] ∧ other.name ≠ []
  · rw [if_pos named] at found
    rw [if_pos named.symm]
    exact iff_of_true found.symm (Or.inl named)
  · rw [if_neg named] at found
    rw [if_neg fun both => named both.symm]
    obtain ⟨vendor, type, version⟩ := found
    constructor
    · rintro ⟨_, _, version'⟩
      exact Or.inr (HwioVersion.matches_antisymm version version')
    · rintro (both | same)
      · exact absurd both named
      · have vendor' : other.vendor = [] ∨ spec.vendor = [] ∨ other.vendor = spec.vendor := by
          rcases vendor with none | none | equal
          · exact Or.inr (Or.inl none)
          · exact Or.inl none
          · exact Or.inr (Or.inr equal.symm)
        have type' : other.type = [] ∨ spec.type = [] ∨ other.type = spec.type := by
          rcases type with none | none | equal
          · exact Or.inr (Or.inl none)
          · exact Or.inl none
          · exact Or.inr (Or.inr equal.symm)
        refine ⟨vendor', type', ?_⟩
        rw [same]
        exact HwioVersion.matches_refl _

theorem HwioCompSpec.SameVersion.symm {spec other : HwioCompSpec}
    (same : spec.SameVersion other) : other.SameVersion spec :=
  same.imp And.symm Eq.symm

/-- When the relation of two elements can be turned around under a condition, so
can that of two lists. -/
theorem forall₂_swap_iff {Element : Type} {Related Condition : Element → Element → Prop}
    (swap : ∀ first second, Related first second →
      (Related second first ↔ Condition first second))
    {left right : List Element} (related : List.Forall₂ Related left right) :
    List.Forall₂ Related right left ↔ List.Forall₂ Condition left right := by
  induction related with
  | nil => exact iff_of_true .nil .nil
  | cons head rest inductionHypothesis =>
      rw [List.forall₂_cons, List.forall₂_cons, swap _ _ head, inductionHypothesis]

/-! ## Devices -/

/-- `std::out_of_range` of `std::vector::at` -/
def outOfRange (index size : Nat) : Exn :=
  ⟨false, text "vector::_M_range_check: __n (which is " ++ decimal index ++
    text ") >= this->size() (which is " ++ decimal size ++ text ")"⟩

namespace DeviceSpecs

variable {Device : Type}

/-- The loop of `operator==` over `specA`, with its index into `specB`. -/
def equalsLoop (specB : List HwioCompSpec) : List HwioCompSpec → UInt32 → Except Exn Bool
  | [], _ => .ok true
  | s :: specA, i =>
      match specB[i.toNat]? with
      | none => .error (outOfRange i.toNat specB.length)
      | some other => if ¬ s.matches other then .ok false else equalsLoop specB specA (i + 1)

/-- `ihwio_dev::operator==`; devices are the same when their addresses are. -/
def equals [DecidableEq Device] (view : DeviceSpecs Device) (this other : Device) :
    Except Exn Bool :=
  if this = other then .ok true
  else equalsLoop (view.getSpec other) (view.getSpec this) 0

/-- The index of the loop grows by one, unless it wraps around. -/
theorem next_index_le (i : UInt32) : (i + 1).toNat ≤ i.toNat + 1 := by
  rw [UInt32.toNat_add]
  exact Nat.mod_le _ _

theorem next_index {i : UInt32} (room : i.toNat + 1 < 2 ^ 32) : (i + 1).toNat = i.toNat + 1 := by
  rw [UInt32.toNat_add]
  exact Nat.mod_eq_of_lt room

/-- While there are specifications on the other side, the loop returns. -/
theorem equalsLoop_returns {specA specB : List HwioCompSpec} {i : UInt32}
    (room : i.toNat + specA.length ≤ specB.length) :
    ∃ equal, equalsLoop specB specA i = .ok equal := by
  induction specA generalizing i with
  | nil => exact ⟨true, rfl⟩
  | cons s specA inductionHypothesis =>
      rw [List.length_cons] at room
      have next := next_index_le i
      obtain ⟨equal, returned⟩ := @inductionHypothesis (i + 1) (by omega)
      rw [equalsLoop, List.getElem?_eq_getElem (show i.toNat < specB.length by omega)]
      simp only
      split
      · exact ⟨false, rfl⟩
      · exact ⟨equal, returned⟩

/-- As long as its index does not wrap around, the loop compares the
specifications at the same places. -/
theorem equalsLoop_iff {specA specB back : List HwioCompSpec} {i : UInt32}
    (sameCount : specA.length = back.length) (room : i.toNat + specA.length ≤ 2 ^ 32)
    (behind : specA ≠ [] → specB.drop i.toNat = back) :
    equalsLoop specB specA i = .ok true ↔
      List.Forall₂ (fun s other => s.matches other = true) specA back := by
  induction specA generalizing i back with
  | nil =>
      rw [List.forall₂_nil_left_iff]
      exact iff_of_true rfl (List.length_eq_zero_iff.mp sameCount.symm)
  | cons s specA inductionHypothesis =>
      have behind := behind (List.cons_ne_nil s specA)
      cases back with
      | nil => cases sameCount
      | cons other back =>
          have here : specB[i.toNat]? = some other := by
            rw [← List.head?_drop, behind]
            rfl
          rw [List.length_cons] at room
          have next := next_index_le i
          have behind' : specA ≠ [] → specB.drop (i + 1).toNat = back := by
            intro more
            have := List.length_pos_iff.mpr more
            rw [next_index (by omega), ← List.tail_drop, behind, List.tail_cons]
          have later := @inductionHypothesis back (i + 1) (Nat.succ.inj sameCount) (by omega)
            behind'
          rw [equalsLoop, here, List.forall₂_cons]
          by_cases equal : s.matches other = true
          · simp only [equal, not_true_eq_false, if_false, true_and]
            exact later
          · simp only [equal, Bool.false_eq_true, not_false_eq_true, if_true, false_and, iff_false]
            exact fun returned => Bool.false_ne_true (Except.ok.inj returned)

/-- The specifications of two devices, compared place by place. -/
def AllMatch (view : DeviceSpecs Device) (this other : Device) : Prop :=
  List.Forall₂ (fun s other => s.matches other = true) (view.getSpec this) (view.getSpec other)

/-- Two devices whose comparison uses no version as a pattern of another. -/
def SameVersions (view : DeviceSpecs Device) (this other : Device) : Prop :=
  List.Forall₂ HwioCompSpec.SameVersion (view.getSpec this) (view.getSpec other)

theorem SameVersions.symm {view : DeviceSpecs Device} {this other : Device}
    (same : view.SameVersions this other) : view.SameVersions other this :=
  List.Forall₂.flip (List.Forall₂.imp (fun _ _ => HwioCompSpec.SameVersion.symm) same)

/-- Two devices that match place by place do so the other way round just when no
version is a pattern in it. -/
theorem AllMatch.swap_iff {view : DeviceSpecs Device} {this other : Device}
    (found : view.AllMatch this other) :
    view.AllMatch other this ↔ view.SameVersions this other :=
  forall₂_swap_iff (fun _ _ => HwioCompSpec.matches_swap_iff) found

/-- Devices with as many specifications can be compared. -/
theorem equals_returns [DecidableEq Device] {view : DeviceSpecs Device} {this other : Device}
    (sameCount : (view.getSpec this).length = (view.getSpec other).length) :
    ∃ equal, view.equals this other = .ok equal := by
  unfold equals
  by_cases same : this = other
  · exact ⟨true, if_pos same⟩
  · rw [if_neg same]
    exact equalsLoop_returns (by rw [UInt32.toNat_zero, Nat.zero_add, sameCount])

-- the sizes are not compared: the first of two specifications matches the only one
example :
    let spec : HwioCompSpec := ⟨[], text "xlnx", text "dma", ⟨1, 0, 97⟩⟩
    let view : DeviceSpecs Bool := ⟨fun _ => [], fun dev => if dev then [spec, spec] else [spec]⟩
    view.equals false true = .ok true ∧ view.equals true false = .error (outOfRange 1 1) := by
  decide

/-- What `operator==` says of two devices with as many specifications. -/
theorem equals_iff [DecidableEq Device] {view : DeviceSpecs Device} {this other : Device}
    (sameCount : (view.getSpec this).length = (view.getSpec other).length)
    (room : (view.getSpec this).length ≤ 2 ^ 32) :
    view.equals this other = .ok true ↔ this = other ∨ view.AllMatch this other := by
  unfold equals
  by_cases same : this = other
  · rw [if_pos same]
    exact iff_of_true rfl (Or.inl same)
  · rw [if_neg same, or_iff_right same]
    exact equalsLoop_iff sameCount (by rw [UInt32.toNat_zero, Nat.zero_add]; exact room)
      (fun _ => List.drop_zero)

/-- Devices with as many specifications can be compared from both sides, and both
say the same, unless one side holds by a version that is a pattern. -/
theorem device_equality_swaps_iff [DecidableEq Device] (view : DeviceSpecs Device)
    (this other : Device)
    (sameCount : (view.getSpec this).length = (view.getSpec other).length) :
    ∃ left right, view.equals this other = .ok left ∧ view.equals other this = .ok right ∧
      ((view.getSpec this).length ≤ 2 ^ 32 →
        (left = true ↔ this = other ∨ view.AllMatch this other) ∧
          (left = right ↔
            (left = true ∨ right = true → this = other ∨ view.SameVersions this other))) := by
  obtain ⟨left, onLeft⟩ := equals_returns sameCount
  obtain ⟨right, onRight⟩ := equals_returns sameCount.symm
  refine ⟨left, right, onLeft, onRight, fun room => ?_⟩
  have leftIff := equals_iff sameCount room
  rw [onLeft, Except.ok.injEq] at leftIff
  have rightIff := equals_iff sameCount.symm (sameCount ▸ room)
  rw [onRight, Except.ok.injEq] at rightIff
  refine ⟨leftIff, ?_⟩
  rw [Bool.eq_iff_iff, leftIff, rightIff]
  by_cases same : this = other
  · rw [same]
    exact iff_of_true (iff_of_true (Or.inl rfl) (Or.inl rfl)) (fun _ => Or.inl rfl)
  · rw [or_iff_right same, or_iff_right (Ne.symm same), or_iff_right same]
    constructor
    · rintro both (found | found)
      · exact (AllMatch.swap_iff found).mp (both.mp found)
      · exact ((AllMatch.swap_iff found).mp (both.mpr found)).symm
    · intro same
      constructor
      · exact fun found => (AllMatch.swap_iff found).mpr (same (Or.inl found))
      · exact fun found => (AllMatch.swap_iff found).mpr (same (Or.inr found)).symm

/-- A device of version 1.0.a matches one whose version is not given. -/
theorem unversioned_device_equality_swaps :
    let view : DeviceSpecs Bool := ⟨fun _ => [], fun dev =>
      [⟨[], text "xlnx", text "dma", if dev then ⟨-1, -1, -1⟩ else ⟨1, 0, 97⟩⟩]⟩
    ∃ left right, view.equals false true = .ok left ∧ view.equals true false = .ok right ∧
      ((view.getSpec false).length ≤ 2 ^ 32 →
        (left = true ↔ false = true ∨ view.AllMatch false true) ∧
          (left = right ↔
            (left = true ∨ right = true → false = true ∨ view.SameVersions false true))) :=
  device_equality_swaps_iff _ false true rfl

/-- That device is equal to the other one, which is not equal to it. -/
theorem unversioned_device_equals_one_way :
    let view : DeviceSpecs Bool := ⟨fun _ => [], fun dev =>
      [⟨[], text "xlnx", text "dma", if dev then ⟨-1, -1, -1⟩ else ⟨1, 0, 97⟩⟩]⟩
    view.equals false true = .ok true ∧ view.equals true false = .ok false := by
  decide

end DeviceSpecs

end Hwio
