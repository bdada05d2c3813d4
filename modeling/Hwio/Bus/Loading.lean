import Hwio.Bus.Discovery
import Hwio.Bus.Json

/-!
Contract: how the text of a version may fail, and what its failure stops.

Owns the versions that no `hwio_version` holds, and the loading of device trees
and JSON descriptions that carry them.

Does not own which of the other texts are versions.
-/

namespace Hwio

open Library

/-- A text that matches the pattern of a version without being one: a component
is no `int`, or the last one is `_`. -/
inductive Misfit : Text → Prop
  | pair {first second : Text} (major : Digits first) (minor : Digits second)
      (large : intMax < number first ∨ intMax < number second) : Misfit (first ++ dot :: second)
  | triple {first second third : Text} (major : Digits first) (minor : Digits second)
      (subminor : Digits third)
      (large : intMax < number first ∨ intMax < number second ∨ intMax < number third) :
      Misfit (first ++ dot :: (second ++ dot :: third))
  | letter {first second : Text} {letter : Byte} (major : Digits first) (minor : Digits second)
      (alpha : isAlpha letter = true) (large : intMax < number first ∨ intMax < number second) :
      Misfit (first ++ dot :: (second ++ dot :: [letter]))
  | underscore {first second : Text} (major : Digits first) (minor : Digits second) :
      Misfit (first ++ dot :: (second ++ dot :: text "_"))

/-- The text behind the last hyphen is such a version. -/
def CarriesMisfit (str : Text) : Prop :=
  ∃ front back, str = front ++ hyphen :: back ∧ hyphen ∉ back ∧ Misfit back

/-- `hwio_version(version_str)` gives the version that the text writes, or throws
a `std::runtime_error`. -/
def FailsAsDeclared (versionStr : Text) : Prop :=
  match HwioVersion.parse versionStr with
  | .ok version => WritesVersion versionStr version
  | .error exn => exn.isRuntimeError = true

/-! ## Versions -/

theorem slips_iff_misfit (str : Text) : Slips str ↔ Misfit str := by
  constructor
  · intro ⟨first, second, fourth, groups, wrong⟩
    have ⟨major, minor, shape⟩ := versionGroups_eq_some_iff.mp groups
    rcases shape with ⟨rfl, rfl⟩ | ⟨group, rfl⟩
    · apply Misfit.pair major minor
      rcases wrong with large | large | ⟨digits, _⟩ | last
      · exact Or.inl large
      · exact Or.inr large
      · exact absurd rfl digits.1
      · cases last
    rcases group.cases with digits | ⟨letter, alpha, rfl⟩ | rfl
    · apply Misfit.triple major minor digits
      rcases wrong with large | large | ⟨_, large⟩ | rfl
      · exact Or.inl large
      · exact Or.inr (Or.inl large)
      · exact Or.inr (Or.inr large)
      · exact absurd (digits.2 _ List.mem_cons_self) (by decide)
    · apply Misfit.letter major minor alpha
      rcases wrong with large | large | ⟨digits, _⟩ | last
      · exact Or.inl large
      · exact Or.inr large
      · have digit := digit_not_alpha (digits.2 letter List.mem_cons_self)
        rw [alpha] at digit
        cases digit
      · obtain ⟨rfl, _⟩ := List.cons.inj last
        cases alpha
    · exact Misfit.underscore major minor
  · intro misfit
    have word : ∀ {letter : Byte}, isAlpha letter = true → isWord letter = true := by
      intro letter alpha
      rw [isWord, alpha]
      rfl
    cases misfit with
    | pair major minor large =>
        exact ⟨_, _, _, versionGroups_pair major minor, large.imp_right Or.inl⟩
    | triple major minor subminor large =>
        exact ⟨_, _, _, versionGroups_triple major minor (Or.inl subminor),
          large.imp_right fun rest => rest.imp_right fun last => Or.inl ⟨subminor, last⟩⟩
    | letter major minor alpha large =>
        exact ⟨_, _, _, versionGroups_triple major minor (Or.inr ⟨_, word alpha, rfl⟩),
          large.imp_right Or.inl⟩
    | underscore major minor =>
        exact ⟨_, _, _, versionGroups_triple major minor (Or.inr ⟨95, rfl, rfl⟩),
          Or.inr (Or.inr (Or.inr rfl))⟩

theorem versionSlips_iff (str : Text) : VersionSlips str ↔ CarriesMisfit str := by
  simp only [VersionSlips, CarriesMisfit, slips_iff_misfit]

theorem failsAsDeclared_iff (str : Text) : FailsAsDeclared str ↔ ¬ Misfit str := by
  rw [← slips_iff_misfit, FailsAsDeclared]
  rcases HwioVersion.parse_cases str with
    ⟨fine, version, writes, parsed⟩ | ⟨_, fine, parsed⟩ | ⟨slips, parsed⟩
  · rw [parsed]
    exact iff_of_true writes fine
  · rw [parsed]
    exact iff_of_true rfl fine
  · rw [parsed]
    exact iff_of_false nofun (not_not.mpr slips)

/-- The constructor of a specification returns unless the version behind the last
hyphen is a misfit. -/
theorem parses_iff (str : Text) :
    (∃ spec, HwioCompSpec.parse str = .ok spec) ↔ ¬ CarriesMisfit str := by
  rw [← versionSlips_iff]
  rcases HwioCompSpec.parse_cases str with ⟨fine, parsed⟩ | ⟨slips, thrown⟩
  · exact iff_of_true parsed fine
  · rw [thrown]
    exact iff_of_false nofun (not_not.mpr slips)

/-! ## Descriptions -/

/-- A device tree is gone through just when no string that is read in it carries
a misfit. -/
theorem loadable_iff {tree : DeviceTree} (directories : Everywhere IsDirectory tree.root) :
    Loadable tree ↔ fileIn tree.root (text "reg") = none ∧
      Everywhere (fun entries => ∀ str ∈ compatibleRead entries, ¬ CarriesMisfit str)
        tree.root := by
  have same : (fun entries => Parses (compatibleRead entries)) =
      fun entries => ∀ str ∈ compatibleRead entries, ¬ CarriesMisfit str := by
    funext entries
    simp only [Parses, parses_iff]
  rw [← same]
  exact ⟨fun loadable => ⟨loadable.noReg, loadable.parses⟩,
    fun ⟨noReg, parses⟩ => { directories := directories, noReg := noReg, parses := parses }⟩

theorem parseDevice_returns_iff {src : Ptree} {entry : JsonEntry}
    (describes : DescribesDevice src entry) (base : entry.base < 2 ^ 64)
    (size : entry.size < 2 ^ 64) (pageSize offset : UInt32) (memFilePath : Text) :
    (∃ dev, parseDevice pageSize src offset memFilePath = .ok dev) ↔
      ∀ str ∈ entry.compatible, ¬ CarriesMisfit (cstr str) := by
  rw [parseDevice_described describes base size]
  simp only [← parses_iff]
  rw [← @exists_mapM_ok_iff _ _ _ fun str => HwioCompSpec.parse (cstr str)]
  cases entry.compatible.mapM fun str => HwioCompSpec.parse (cstr str) with
  | error exn => exact iff_of_false nofun nofun
  | ok specs => exact iff_of_true ⟨_, rfl⟩ ⟨specs, rfl⟩

/-- A JSON description is loaded just when none of its strings carries a misfit. -/
theorem loadDevices_returns_iff {root : Ptree} {offset : Nat} {entries : List JsonEntry}
    (describes : DescribesBus root offset entries) (small : offset < 2 ^ 64)
    (fits : ∀ entry ∈ entries, entry.base < 2 ^ 64 ∧ entry.size < 2 ^ 64) (pageSize : UInt32) :
    (∃ devices, loadDevices pageSize root = .ok devices) ↔
      ∀ entry ∈ entries, ∀ str ∈ entry.compatible, ¬ CarriesMisfit (cstr str) := by
  have ⟨array, found, described⟩ := describes.devices
  rw [loadDevices_eq (describes.number small) found, exists_mapM_ok_iff]
  have one : ∀ {items : List (Text × Ptree)} {entries : List JsonEntry},
      List.Forall₂ DescribesDevice (items.map Prod.snd) entries →
        (∀ entry ∈ entries, entry.base < 2 ^ 64 ∧ entry.size < 2 ^ 64) →
          ((∀ item ∈ items, ∃ dev, parseDevice pageSize item.2 (UInt32.ofNat offset)
              (root.get (text "memfile") (text "/dev/mem")) = .ok dev) ↔
            ∀ entry ∈ entries, ∀ str ∈ entry.compatible, ¬ CarriesMisfit (cstr str)) := by
    intro items
    induction items with
    | nil =>
        intro entries described _
        obtain rfl := List.forall₂_nil_left_iff.mp described
        exact iff_of_true nofun nofun
    | cons item items before =>
        intro entries described fits
        obtain ⟨entry, rest, here, others, rfl⟩ := List.forall₂_cons_left_iff.mp described
        have ⟨base, size⟩ := fits entry List.mem_cons_self
        rw [List.forall_mem_cons, List.forall_mem_cons, parseDevice_returns_iff here base size,
          before others fun other member => fits other (List.mem_cons_of_mem _ member)]
  exact one described fits

/-! ## The exceptions of a version -/

/-- A version fails as it is declared just when its text is no misfit; the
constructor of a specification returns, and a device tree or a JSON description
is loaded, just when no text in it carries a misfit. -/
theorem version_fails_as_declared_iff (str : Text) :
    (FailsAsDeclared str ↔ ¬ Misfit str) ∧
      ((∃ spec, HwioCompSpec.parse str = .ok spec) ↔ ¬ CarriesMisfit str) ∧
      (∀ (tree : DeviceTree) (sort : StdSort TreeDevice), Everywhere IsDirectory tree.root →
        ((∃ fuel bus, HwioBusDevicetree.new tree sort fuel = some (.ok bus)) ↔
          fileIn tree.root (text "reg") = none ∧
            Everywhere (fun entries => ∀ str ∈ compatibleRead entries, ¬ CarriesMisfit str)
              tree.root)) ∧
      ∀ (pageSize : UInt32) (root : Ptree) (offset : Nat) (entries : List JsonEntry),
        DescribesBus root offset entries → offset < 2 ^ 64 →
          (∀ entry ∈ entries, entry.base < 2 ^ 64 ∧ entry.size < 2 ^ 64) →
            ((∃ devices, loadDevices pageSize root = .ok devices) ↔
              ∀ entry ∈ entries, ∀ str ∈ entry.compatible, ¬ CarriesMisfit (cstr str)) := by
  refine ⟨failsAsDeclared_iff str, parses_iff str, ?_, ?_⟩
  · intro tree sort directories
    rw [new_ok_iff sort directories, loadable_iff directories]
  · intro pageSize root offset entries describes small fits
    exact loadDevices_returns_iff describes small fits pageSize

/-- The board and the document with one device carry no misfit. -/
theorem board_and_document_loaded :
    (∃ fuel bus, HwioBusDevicetree.new board (mergeSorted TreeDevice) fuel = some (.ok bus)) ∧
      ∃ devices, loadDevices 4096 (oneEntry "0" "1000") = .ok devices := by
  have ⟨_, parses, loadsTree, loadsDocument⟩ := version_fails_as_declared_iff
    (text "xlnx,axi-dma-1.2")
  constructor
  · have directories := board_readable.directories
    exact (loadsTree board (mergeSorted TreeDevice) directories).mpr
      ((loadable_iff directories).mp board_readable.loadable)
  · have base : WritesHex (text "0") 0 :=
      @WritesHex.plain (text "0") (by decide) (List.all_eq_true.mp (by decide))
    have size : WritesHex (text "1000") 0x1000 :=
      @WritesHex.plain (text "1000") (by decide) (List.all_eq_true.mp (by decide))
    refine (loadsDocument 4096 (oneEntry "0" "1000") 0x40000000 [dmaEntry 0 0x1000]
      (dma_described base size) (by decide) ?_).mpr ?_
    · intro entry member
      obtain rfl := List.mem_singleton.mp member
      exact ⟨by decide, by decide⟩
    · intro entry member str inside
      obtain rfl := List.mem_singleton.mp member
      obtain rfl := List.mem_singleton.mp inside
      exact parses.mp ⟨⟨[], text "xlnx", text "axi-dma", ⟨1, 2, -1⟩⟩, rfl⟩

/-- A text of digits and a dot makes `hwio_version` throw what it does not
declare, and so does a specification with it. -/
theorem large_version_escapes :
    HwioVersion.parse (text "99999999999.0") = .error ⟨false, text "stoi"⟩ ∧
      ¬ FailsAsDeclared (text "99999999999.0") ∧
      ¬ ∃ spec, HwioCompSpec.parse (text "xlnx,axi-dma-99999999999.0") = .ok spec := by
  have large : Misfit (text "99999999999.0") :=
    @Misfit.pair (text "99999999999") (text "0") (by decide) (by decide) (by decide)
  refine ⟨by decide, ?_, ?_⟩
  · rw [failsAsDeclared_iff]
    exact not_not.mpr large
  · rw [parses_iff]
    exact not_not.mpr ⟨text "xlnx,axi-dma", text "99999999999.0", rfl, by decide, large⟩

end Hwio
