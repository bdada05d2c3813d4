import Hwio.Bus.CompSpec

/-!
Contract: which devices a bus finds, from `ihwio_bus.h`, `hwio_bus_composite.cpp`
and the comparisons of `hwio_version.cpp` and `hwio_comp_spec.cpp`.

Owns the match of a specification against a pattern, the search for the devices
of a bus, the search on several buses, and the laws of the result.

Does not own where the devices of a bus come from.
-/

namespace Hwio

open Library

/-! ## Patterns -/

/-- `hwio_version::operator==`; `other` is the pattern. -/
def HwioVersion.matches (version other : HwioVersion) : Bool :=
  if other.major ≠ -1 ∧ other.major ≠ version.major then false
  else if other.minor ≠ -1 ∧ other.minor ≠ version.minor then false
  else if other.subminor ≠ -1 ∧ other.subminor ≠ version.subminor then false
  else true

/-- `hwio_comp_spec::operator==`; `other` is the pattern. -/
def HwioCompSpec.matches (spec other : HwioCompSpec) : Bool :=
  if spec.name ≠ [] ∧ other.name ≠ [] then spec.name = other.name
  else if spec.vendor ≠ [] ∧ other.vendor ≠ [] ∧ spec.vendor ≠ other.vendor then false
  else if spec.type ≠ [] ∧ other.type ≠ [] ∧ spec.type ≠ other.type then false
  else spec.version.matches other.version

theorem HwioVersion.matches_iff (version other : HwioVersion) :
    version.matches other = true ↔
      (other.major = -1 ∨ other.major = version.major) ∧
        (other.minor = -1 ∨ other.minor = version.minor) ∧
          (other.subminor = -1 ∨ other.subminor = version.subminor) := by
  unfold HwioVersion.matches
  by_cases major : other.major = -1 ∨ other.major = version.major
  · by_cases minor : other.minor = -1 ∨ other.minor = version.minor
    · by_cases subminor : other.subminor = -1 ∨ other.subminor = version.subminor
      · grind
      · grind
    · grind
  · grind

theorem HwioVersion.matches_refl (version : HwioVersion) : version.matches version = true := by
  rw [HwioVersion.matches_iff]
  exact ⟨Or.inr rfl, Or.inr rfl, Or.inr rfl⟩

/-- A wildcard stays one along a chain of patterns. -/
theorem component_trans {first second third : Int32} (left : second = -1 ∨ second = first)
    (right : third = -1 ∨ third = second) : third = -1 ∨ third = first := by
  rcases right with wild | rfl
  · exact Or.inl wild
  · exact left

theorem HwioVersion.matches_trans {first second third : HwioVersion}
    (left : first.matches second = true) (right : second.matches third = true) :
    first.matches third = true := by
  rw [HwioVersion.matches_iff] at left right ⊢
  exact ⟨component_trans left.1 right.1, component_trans left.2.1 right.2.1,
    component_trans left.2.2 right.2.2⟩

/-- A pattern with one more wildcard. -/
inductive HwioCompSpec.Widened (spec : HwioCompSpec) : HwioCompSpec → Prop
  | vendor : Widened spec { spec with vendor := [] }
  | type : Widened spec { spec with type := [] }
  | major : Widened spec { spec with version := { spec.version with major := -1 } }
  | minor : Widened spec { spec with version := { spec.version with minor := -1 } }
  | subminor : Widened spec { spec with version := { spec.version with subminor := -1 } }

/-- A specification without a name in common with its pattern is compared by its
other fields. -/
theorem HwioCompSpec.matches_iff (spec other : HwioCompSpec) :
    spec.matches other = true ↔
      if spec.name ≠ [] ∧ other.name ≠ [] then spec.name = other.name
      else (spec.vendor = [] ∨ other.vendor = [] ∨ spec.vendor = other.vendor) ∧
        (spec.type = [] ∨ other.type = [] ∨ spec.type = other.type) ∧
          spec.version.matches other.version = true := by
  unfold HwioCompSpec.matches
  by_cases named : spec.name ≠ [] ∧ other.name ≠ []
  · rw [if_pos named, if_pos named, decide_eq_true_iff]
  rw [if_neg named, if_neg named]
  by_cases vendor : spec.vendor ≠ [] ∧ other.vendor ≠ [] ∧ spec.vendor ≠ other.vendor
  · rw [if_pos vendor]
    grind
  rw [if_neg vendor]
  by_cases type : spec.type ≠ [] ∧ other.type ≠ [] ∧ spec.type ≠ other.type
  · rw [if_pos type]
    grind
  · rw [if_neg type]
    grind

/-- What matches a pattern matches it with one more wildcard. -/
theorem HwioCompSpec.Widened.matches {pattern wider : HwioCompSpec}
    (widened : pattern.Widened wider) {spec : HwioCompSpec}
    (old : spec.matches pattern = true) : spec.matches wider = true := by
  rw [HwioCompSpec.matches_iff] at old ⊢
  have name : wider.name = pattern.name := by cases widened <;> rfl
  rw [name]
  by_cases named : spec.name ≠ [] ∧ pattern.name ≠ []
  · rw [if_pos named] at old ⊢
    exact old
  rw [if_neg named] at old ⊢
  obtain ⟨vendor, type, version⟩ := old
  rw [HwioVersion.matches_iff] at version ⊢
  cases widened with
  | vendor => exact ⟨Or.inr (Or.inl rfl), type, version⟩
  | type => exact ⟨vendor, Or.inr (Or.inl rfl), version⟩
  | major => exact ⟨vendor, type, Or.inl rfl, version.2⟩
  | minor => exact ⟨vendor, type, version.1, Or.inl rfl, version.2.2⟩
  | subminor => exact ⟨vendor, type, version.1, version.2.1, Or.inl rfl⟩

/-! ## The devices of a bus -/

variable {Device : Type}

/-- `name()` and `get_spec()` of the devices of a bus. -/
structure DeviceSpecs (Device : Type) where
  name : Device → Text
  getSpec : Device → List HwioCompSpec

namespace DeviceSpecs

variable (view : DeviceSpecs Device)

/-- The loop over the queried names for a device without specifications. -/
def nameLoop (dev : Device) : List HwioCompSpec → List Device → List Device
  | [], res => res
  | s :: spec, res =>
      if s.name ≠ [] ∧ view.name dev = s.name then res ++ [dev] else nameLoop dev spec res

/-- The loop over the specifications of a device; its flag is `matched`. -/
def devSpecsLoop (dev : Device) (s : HwioCompSpec) :
    List HwioCompSpec → List Device → List Device × Bool
  | [], res => (res, false)
  | ds :: devSpecs, res =>
      if ds.matches s then (res ++ [dev], true) else devSpecsLoop dev s devSpecs res

/-- The loop over the queried specifications for a device with specifications. -/
def specLoop (dev : Device) : List HwioCompSpec → List Device → List Device
  | [], res => res
  | s :: spec, res =>
      let (res, matched) := devSpecsLoop dev s (view.getSpec dev) res
      if matched then res else specLoop dev spec res

/-- The loop over the devices. -/
def deviceLoop (spec : List HwioCompSpec) : List Device → List Device → List Device
  | [], res => res
  | dev :: devices, res =>
      let res :=
        if (view.getSpec dev).length = 0 then
          if view.name dev ≠ [] then view.nameLoop dev spec res else res
        else view.specLoop dev spec res
      deviceLoop spec devices res

/-- `ihwio_bus::filter_device_by_spec` -/
def filterDeviceBySpec (devices : List Device) (spec : List HwioCompSpec) : List Device :=
  view.deviceLoop spec devices []

/-- A device meets a queried specification: by its name when it has no
specification, and else by one of its specifications. -/
def meets (dev : Device) (s : HwioCompSpec) : Bool :=
  if view.getSpec dev = [] then view.name dev ≠ [] ∧ view.name dev = s.name
  else (view.getSpec dev).any fun ds => ds.matches s

theorem nameLoop_eq {dev : Device} (nameless : view.getSpec dev = []) (named : view.name dev ≠ [])
    (spec : List HwioCompSpec) (res : List Device) :
    view.nameLoop dev spec res = res ++ if spec.any (view.meets dev) then [dev] else [] := by
  induction spec with
  | nil => simp [nameLoop]
  | cons s spec before =>
      have meets : view.meets dev s = decide (s.name ≠ [] ∧ view.name dev = s.name) := by
        rw [DeviceSpecs.meets, if_pos nameless, decide_eq_decide]
        constructor
        · rintro ⟨_, same⟩
          exact ⟨same ▸ named, same⟩
        · rintro ⟨_, same⟩
          exact ⟨named, same⟩
      rw [nameLoop, List.any_cons, meets]
      by_cases found : s.name ≠ [] ∧ view.name dev = s.name
      · simp [found]
      · rw [if_neg found, before, decide_eq_false found, Bool.false_or]

theorem devSpecsLoop_eq (dev : Device) (s : HwioCompSpec) (devSpecs : List HwioCompSpec)
    (res : List Device) :
    devSpecsLoop dev s devSpecs res =
      (res ++ (if devSpecs.any fun ds => ds.matches s then [dev] else []),
        devSpecs.any fun ds => ds.matches s) := by
  induction devSpecs with
  | nil => simp [devSpecsLoop]
  | cons ds devSpecs before =>
      rw [devSpecsLoop, List.any_cons]
      by_cases found : ds.matches s = true
      · simp [found]
      · rw [if_neg found, before, Bool.eq_false_iff.mpr found, Bool.false_or]

theorem specLoop_eq {dev : Device} (specified : view.getSpec dev ≠ []) (spec : List HwioCompSpec)
    (res : List Device) :
    view.specLoop dev spec res = res ++ if spec.any (view.meets dev) then [dev] else [] := by
  induction spec with
  | nil => simp [specLoop]
  | cons s spec before =>
      have meets : view.meets dev s = (view.getSpec dev).any fun ds => ds.matches s :=
        if_neg specified
      rw [specLoop, devSpecsLoop_eq, List.any_cons, ← meets]
      cases view.meets dev s with
      | true => simp
      | false =>
          simp only [Bool.false_eq_true, if_false, Bool.false_or, List.append_nil]
          exact before

theorem deviceLoop_eq (spec : List HwioCompSpec) (devices res : List Device) :
    view.deviceLoop spec devices res =
      res ++ devices.filter fun dev => spec.any (view.meets dev) := by
  induction devices generalizing res with
  | nil => simp [deviceLoop]
  | cons dev devices before =>
      have one : (if (view.getSpec dev).length = 0 then
          if view.name dev ≠ [] then view.nameLoop dev spec res else res
        else view.specLoop dev spec res) = res ++ if spec.any (view.meets dev) then [dev] else [] := by
        by_cases nameless : view.getSpec dev = []
        · rw [if_pos (List.length_eq_zero_iff.mpr nameless)]
          by_cases named : view.name dev ≠ []
          · rw [if_pos named, view.nameLoop_eq nameless named]
          · have none : ∀ s, view.meets dev s = false := by
              intro s
              rw [meets, if_pos nameless]
              exact decide_eq_false fun found => named found.1
            rw [if_neg named, List.any_eq_false.mpr fun s _ => by rw [none]; decide]
            simp
        · rw [if_neg (fun empty => nameless (List.length_eq_zero_iff.mp empty)),
            view.specLoop_eq nameless]
      rw [deviceLoop, one, before, List.append_assoc, List.filter_cons]
      split <;> rfl

/-- The devices that are found are those that meet a queried specification. -/
theorem filterDeviceBySpec_eq (devices : List Device) (spec : List HwioCompSpec) :
    view.filterDeviceBySpec devices spec =
      devices.filter fun dev => spec.any (view.meets dev) :=
  view.deviceLoop_eq spec devices []

/-- What meets a queried specification meets it with one more wildcard. -/
theorem meets_widened {s wider : HwioCompSpec} (widened : s.Widened wider) {dev : Device}
    (old : view.meets dev s = true) : view.meets dev wider = true := by
  have name : wider.name = s.name := by cases widened <;> rfl
  unfold meets at old ⊢
  rw [name]
  by_cases nameless : view.getSpec dev = []
  · rw [if_pos nameless] at old ⊢
    exact old
  · rw [if_neg nameless, List.any_eq_true] at old ⊢
    have ⟨ds, member, found⟩ := old
    exact ⟨ds, member, widened.matches found⟩

/-- More is found when every specification that is met stays met. -/
theorem filterDeviceBySpec_sublist {devices : List Device} {spec more : List HwioCompSpec}
    (kept : ∀ dev ∈ devices, spec.any (view.meets dev) = true →
      more.any (view.meets dev) = true) :
    (view.filterDeviceBySpec devices spec).Sublist (view.filterDeviceBySpec devices more) := by
  rw [filterDeviceBySpec_eq, filterDeviceBySpec_eq]
  have both : devices.filter (fun dev => spec.any (view.meets dev)) =
      (devices.filter fun dev => more.any (view.meets dev)).filter
        fun dev => spec.any (view.meets dev) := by
    rw [List.filter_filter]
    apply List.filter_congr
    intro dev member
    cases found : spec.any (view.meets dev) with
    | true => rw [kept dev member found, Bool.and_true]
    | false => rw [Bool.false_and]
  rw [both]
  exact List.filter_sublist

theorem any_meets_of_subset {spec more : List HwioCompSpec} (inside : spec ⊆ more) {dev : Device}
    (found : spec.any (view.meets dev) = true) : more.any (view.meets dev) = true := by
  have ⟨s, member, met⟩ := List.any_eq_true.mp found
  exact List.any_eq_true.mpr ⟨s, inside member, met⟩

/-- Only which specifications are queried counts. -/
theorem filterDeviceBySpec_congr {spec other : List HwioCompSpec}
    (same : ∀ s, s ∈ spec ↔ s ∈ other) (devices : List Device) :
    view.filterDeviceBySpec devices spec = view.filterDeviceBySpec devices other := by
  rw [filterDeviceBySpec_eq, filterDeviceBySpec_eq]
  apply List.filter_congr
  intro dev member
  rw [Bool.eq_iff_iff]
  exact ⟨view.any_meets_of_subset fun s => (same s).mp,
    view.any_meets_of_subset fun s => (same s).mpr⟩

end DeviceSpecs

/-! ## Several buses -/

variable {World : Type}

/-- The loop of `hwio_bus_composite::find_devices` over `_buses`. -/
def compositeLoop (spec : List HwioCompSpec) : List (IhwioBus World) → List DevPtr → World →
    Except Exn (List DevPtr) × World
  | [], res, world => (.ok res, world)
  | b :: buses, res, world =>
      match b.findDevices spec world with
      | (.error exn, world) => (.error exn, world)
      | (.ok found, world) => compositeLoop spec buses (res ++ found) world

/-- `hwio_bus_composite` -/
def HwioBusComposite (buses : List (IhwioBus World)) : IhwioBus World where
  findDevices spec := compositeLoop spec buses []

/-- The buses return these results, one after the other. -/
inductive Returning (spec : List HwioCompSpec) :
    List (IhwioBus World) → World → List (List DevPtr) → World → Prop
  | nil (world : World) : Returning spec [] world [] world
  | cons {bus : IhwioBus World} {buses : List (IhwioBus World)} {world between after : World}
      {found : List DevPtr} {results : List (List DevPtr)}
      (first : bus.findDevices spec world = (.ok found, between))
      (rest : Returning spec buses between results after) :
      Returning spec (bus :: buses) world (found :: results) after

theorem compositeLoop_ok_iff (spec : List HwioCompSpec) (buses : List (IhwioBus World))
    (res found : List DevPtr) (world after : World) :
    compositeLoop spec buses res world = (.ok found, after) ↔
      ∃ results, Returning spec buses world results after ∧ found = res ++ results.flatten := by
  induction buses generalizing res world with
  | nil =>
      rw [compositeLoop]
      constructor
      · intro same
        obtain ⟨result, rfl⟩ := Prod.mk.inj same
        exact ⟨[], .nil world, by simpa using (Except.ok.inj result).symm⟩
      · rintro ⟨results, returning, rfl⟩
        cases returning
        simp
  | cons bus buses before =>
      rw [compositeLoop]
      rcases looking : bus.findDevices spec world with ⟨result, between⟩
      cases result with
      | error exn =>
          constructor
          · intro same
            cases (Prod.mk.inj same).1
          · rintro ⟨results, returning, _⟩
            cases returning with
            | cons first rest => cases looking.symm.trans first
      | ok first =>
          simp only
          rw [before]
          constructor
          · rintro ⟨results, returning, rfl⟩
            exact ⟨first :: results, .cons looking returning, by
              rw [List.flatten_cons, List.append_assoc]⟩
          · rintro ⟨results, returning, rfl⟩
            cases returning with
            | @cons _ _ _ _ _ found results same rest =>
                obtain ⟨result, rfl⟩ := Prod.mk.inj (looking.symm.trans same)
                obtain rfl := Except.ok.inj result
                exact ⟨results, rest, by rw [List.flatten_cons, List.append_assoc]⟩

/-! ## The laws -/

/-- What a bus finds are those of its devices that meet a queried specification,
each where the bus has it; it depends on the set of the queried specifications
only, and grows with it and with every wildcard in it.  Several buses find what
each of them finds, one after the other. -/
theorem find_devices_laws (view : DeviceSpecs Device) (devices : List Device)
    (spec : List HwioCompSpec) :
    view.filterDeviceBySpec devices spec =
        devices.filter (fun dev => spec.any (view.meets dev)) ∧
      (∀ other, (∀ s, s ∈ spec ↔ s ∈ other) →
        view.filterDeviceBySpec devices other = view.filterDeviceBySpec devices spec) ∧
      (∀ more, spec ⊆ more →
        (view.filterDeviceBySpec devices spec).Sublist (view.filterDeviceBySpec devices more)) ∧
      (∀ front s wider back, spec = front ++ s :: back → s.Widened wider →
        (view.filterDeviceBySpec devices spec).Sublist
          (view.filterDeviceBySpec devices (front ++ wider :: back))) ∧
      (∀ (World : Type) (buses : List (IhwioBus World)) (world after : World) (found : List DevPtr),
        (HwioBusComposite buses).findDevices spec world = (.ok found, after) ↔
          ∃ results, Returning spec buses world results after ∧ found = results.flatten) ∧
      (∀ version : HwioVersion, version.matches version = true) ∧
      ∀ first second third : HwioVersion, first.matches second = true →
        second.matches third = true → first.matches third = true := by
  refine ⟨view.filterDeviceBySpec_eq devices spec, ?_, ?_, ?_, ?_, HwioVersion.matches_refl, ?_⟩
  · intro other same
    exact (view.filterDeviceBySpec_congr same devices).symm
  · intro more inside
    exact view.filterDeviceBySpec_sublist fun dev _ => view.any_meets_of_subset inside
  · rintro front s wider back rfl widened
    apply view.filterDeviceBySpec_sublist
    intro dev _ found
    rw [List.any_append, List.any_cons] at found ⊢
    simp only [Bool.or_eq_true] at found ⊢
    rcases found with before | here | behind
    · exact Or.inl before
    · exact Or.inr (Or.inl (view.meets_widened widened here))
    · exact Or.inr (Or.inr behind)
  · intro World buses world after found
    exact compositeLoop_ok_iff spec buses [] found world after
  · intro first second third left right
    exact HwioVersion.matches_trans left right

end Hwio
