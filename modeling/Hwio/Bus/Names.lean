import Hwio.Bus.Discovery
import Hwio.Bus.Json
import Hwio.Bus.Matching

/-!
Contract: which devices a name finds.

Owns `find_devices` of the bus of a JSON description and of the bus of a device
tree, and what they find for a specification that is a name.
-/

namespace Hwio

open Library

/-! ## The buses -/

/-- `name()` and `get_spec()` of a `hwio_device_mmap` -/
def treeSpecs : DeviceSpecs TreeDevice where
  name := TreeDevice.name
  getSpec := TreeDevice.spec

/-- `hwio_bus_json::find_devices` -/
def HwioBusJson.findDevices (allDevices : List TreeDevice) (spec : List HwioCompSpec) :
    List TreeDevice :=
  treeSpecs.filterDeviceBySpec allDevices spec

/-- `hwio_bus_devicetree::find_devices` -/
def HwioBusDevicetree.findDevices (bus : HwioBusDevicetree) (spec : List HwioCompSpec) :
    List TreeDevice :=
  treeSpecs.filterDeviceBySpec bus.allDevices spec

/-- A specification in which only the name is set. -/
def nameSpec (name : Text) : HwioCompSpec where
  name := name
  vendor := []
  type := []
  version := .na

/-- The name in the description of a device. -/
def Ptree.entryName (src : Ptree) : Text := src.get (text "name") []

/-- The compatible strings in the description of a device. -/
def Ptree.compatible (src : Ptree) : List (Text × Ptree) :=
  match src.getChild (text "compatible") with
  | .ok array => array.children
  | .error _ => []

/-! ## Devices that a name finds -/

section Named

variable {n : Text} (named : n ≠ [])

include named

theorem matches_nameSpec (spec : HwioCompSpec) :
    spec.matches (nameSpec n) = true ↔ spec.name = [] ∨ spec.name = n := by
  have any : spec.version.matches HwioVersion.na = true :=
    (HwioVersion.matches_iff _ _).mpr ⟨Or.inl rfl, Or.inl rfl, Or.inl rfl⟩
  rw [HwioCompSpec.matches_iff]
  by_cases nameless : spec.name = []
  · rw [if_neg fun both => both.1 nameless]
    exact iff_of_true ⟨Or.inr (Or.inl rfl), Or.inr (Or.inl rfl), any⟩ (Or.inl nameless)
  · rw [if_pos ⟨nameless, named⟩]
    exact ⟨Or.inr, fun found => found.resolve_left nameless⟩

/-- A device without specifications is found by its own name, and one with
specifications by theirs; those without a name match every name. -/
theorem meets_nameSpec {dev : TreeDevice} {name : Text} (names : ∀ ds ∈ dev.spec, ds.name = name) :
    treeSpecs.meets dev (nameSpec n) = true ↔
      (dev.spec = [] ∧ dev.name = n) ∨ (dev.spec ≠ [] ∧ (name = [] ∨ name = n)) := by
  show (if dev.spec = [] then _ else _ : Bool) = true ↔ _
  by_cases nothing : dev.spec = []
  · rw [if_pos nothing, decide_eq_true_eq]
    show dev.name ≠ [] ∧ dev.name = n ↔ _
    constructor
    · exact fun found => Or.inl ⟨nothing, found.2⟩
    · intro found
      have same := (found.resolve_right fun other => other.1 nothing).2
      exact ⟨same ▸ named, same⟩
  · rw [if_neg nothing, List.any_eq_true]
    constructor
    · intro ⟨ds, member, found⟩
      rw [matches_nameSpec named, names ds member] at found
      exact Or.inr ⟨nothing, found⟩
    · intro found
      have either := (found.resolve_left fun other => nothing other.1).2
      have ⟨ds, member⟩ := List.exists_mem_of_ne_nil _ nothing
      refine ⟨ds, member, (matches_nameSpec named ds).mpr ?_⟩
      rw [names ds member]
      exact either

end Named

theorem findDevices_nameSpec (devices : List TreeDevice) (n : Text) :
    treeSpecs.filterDeviceBySpec devices [nameSpec n] =
      devices.filter fun dev => treeSpecs.meets dev (nameSpec n) := by
  rw [DeviceSpecs.filterDeviceBySpec_eq]
  simp only [List.any_cons, List.any_nil, Bool.or_false]

/-! ## The devices of a JSON description -/

/-- The device that was made from an entry: it has no name of its own, and one
specification under the name of the entry for each of its strings. -/
structure MadeFrom (src : Ptree) (dev : TreeDevice) : Prop where
  name : dev.name = []
  count : dev.spec.length = src.compatible.length
  names : ∀ ds ∈ dev.spec, ds.name = src.entryName

theorem parseCompatible_name {name : Text} {item : Text × Ptree} {spec : HwioCompSpec}
    (parsed : parseCompatible name item = .ok spec) : spec.name = name := by
  rw [parseCompatible] at parsed
  split at parsed
  · cases parsed
  · cases made : HwioCompSpec.parse (cstr item.2.data) with
    | error exn =>
        rw [made] at parsed
        cases parsed
    | ok spec =>
        rw [made] at parsed
        cases parsed
        rfl

theorem parseDevice_madeFrom {pageSize offset : UInt32} {src : Ptree} {memFilePath : Text}
    {dev : TreeDevice} (parsed : parseDevice pageSize src offset memFilePath = .ok dev) :
    MadeFrom src dev := by
  unfold parseDevice at parsed
  simp only at parsed
  split at parsed
  · cases parsed
  split at parsed
  · cases parsed
  have ⟨array, found, parsed⟩ := bind_eq_ok_iff.mp parsed
  have ⟨specs, made, parsed⟩ := bind_eq_ok_iff.mp parsed
  have ⟨size, _, parsed⟩ := bind_eq_ok_iff.mp parsed
  have ⟨base, _, same⟩ := bind_eq_ok_iff.mp parsed
  have compatible : src.compatible = array.children := by
    rw [Ptree.compatible]
    cases child : src.getChild (text "compatible") with
    | error exn =>
        rw [child] at found
        cases found
    | ok other =>
        rw [child] at found
        cases found
        rfl
  cases same
  refine { name := rfl, count := ?_, names := fun ds member => ?_ }
  · rw [compatible]
    exact (mapM_eq_ok_iff.mp made).length_eq.symm
  · have ⟨item, _, one⟩ := exists_source_of_mapM made member
    exact parseCompatible_name one

theorem exists_partner {Left Right : Type} {related : Left → Right → Prop} {lefts : List Left}
    {rights : List Right} (all : List.Forall₂ related lefts rights) {left : Left}
    (member : left ∈ lefts) : ∃ right, (left, right) ∈ lefts.zip rights := by
  rw [← List.map_fst_zip (Nat.le_of_eq all.length_eq), List.mem_map] at member
  have ⟨⟨_, right⟩, inside, same⟩ := member
  exact ⟨right, same ▸ inside⟩

/-- Pairs of an entry and its device, of which a device is selected as its entry
is. -/
theorem filter_zip {Left Right : Type} {related : Left → Right → Prop} {lefts : List Left}
    {rights : List Right} (all : List.Forall₂ related lefts rights) {left : Left → Bool}
    {right : Right → Bool}
    (same : ∀ a ∈ lefts, ∀ b, related a b → left a = right b) :
    rights.filter right = ((lefts.zip rights).filter fun pair => left pair.1).map Prod.snd := by
  induction all with
  | nil => rfl
  | @cons a b lefts rights here _ before =>
      have first := same a List.mem_cons_self b here
      have rest := before fun a member => same a (List.mem_cons_of_mem _ member)
      rw [List.zip_cons_cons, List.filter_cons, List.filter_cons, ← first, rest]
      cases left a <;> rfl

theorem MadeFrom.meets_iff {src : Ptree} {dev : TreeDevice} (origin : MadeFrom src dev) {n : Text}
    (named : n ≠ []) :
    treeSpecs.meets dev (nameSpec n) = true ↔
      src.compatible ≠ [] ∧ (src.entryName = [] ∨ src.entryName = n) := by
  have empty : dev.spec = [] ↔ src.compatible = [] := by
    rw [← List.length_eq_zero_iff, ← List.length_eq_zero_iff, origin.count]
  rw [meets_nameSpec named origin.names, origin.name]
  constructor
  · intro found
    have ⟨specified, either⟩ := found.resolve_left fun other => named other.2.symm
    exact ⟨fun nothing => specified (empty.mpr nothing), either⟩
  · intro ⟨strings, either⟩
    exact Or.inr ⟨fun nothing => strings (empty.mp nothing), either⟩

/-- A description is found by names just when every entry of the name has a
string to bear it, and no entry without a name has a string. -/
theorem json_found_iff {n : Text} (named : n ≠ []) {sources : List Ptree}
    {devices : List TreeDevice} (made : List.Forall₂ MadeFrom sources devices) :
    HwioBusJson.findDevices devices [nameSpec n] =
        ((sources.zip devices).filter fun entry => entry.1.entryName = n).map Prod.snd ↔
      ∀ src ∈ sources, (src.entryName = [] → src.compatible = []) ∧
        (src.entryName = n → src.compatible ≠ []) := by
  rw [HwioBusJson.findDevices, findDevices_nameSpec]
  constructor
  · intro same src member
    have ⟨dev, pair⟩ := exists_partner made member
    have origin := List.forall₂_zip made pair
    constructor
    · intro nameless
      by_contra strings
      have met := (origin.meets_iff named).mpr ⟨strings, Or.inl nameless⟩
      have found : dev ∈ devices.filter fun dev => treeSpecs.meets dev (nameSpec n) :=
        List.mem_filter.mpr ⟨(List.of_mem_zip pair).2, met⟩
      rw [same, List.mem_map] at found
      have ⟨⟨other, second⟩, inside, sameDev⟩ := found
      obtain rfl : dev = second := sameDev.symm
      have ⟨otherPair, otherName⟩ := List.mem_filter.mp inside
      -- its specifications would have both names
      have otherOrigin := List.forall₂_zip made otherPair
      have specified : dev.spec ≠ [] := by
        intro nothing
        apply strings
        rw [← List.length_eq_zero_iff, ← origin.count, nothing]
        rfl
      have ⟨ds, inner⟩ := List.exists_mem_of_ne_nil _ specified
      have both := (origin.names ds inner).symm.trans (otherOrigin.names ds inner)
      rw [nameless, of_decide_eq_true otherName] at both
      exact named both.symm
    · intro isN
      have expected : dev ∈ ((sources.zip devices).filter fun entry =>
          entry.1.entryName = n).map Prod.snd :=
        List.mem_map.mpr ⟨(src, dev), List.mem_filter.mpr ⟨pair, decide_eq_true isN⟩, rfl⟩
      rw [← same, List.mem_filter, origin.meets_iff named] at expected
      exact expected.2.1
  · intro borne
    apply @filter_zip _ _ _ _ _ made (fun src => decide (src.entryName = n))
    intro src member dev origin
    have ⟨nameless, bears⟩ := borne src member
    rw [Bool.eq_iff_iff, decide_eq_true_eq, origin.meets_iff named]
    constructor
    · exact fun isN => ⟨bears isN, Or.inr isN⟩
    · intro ⟨strings, either⟩
      exact either.resolve_left fun nothing => strings (nameless nothing)

theorem loadDevices_madeFrom {pageSize : UInt32} {root array : Ptree} {devices : List TreeDevice}
    (entries : root.getChild (text "devices") = .ok array)
    (loaded : loadDevices pageSize root = .ok devices) :
    List.Forall₂ MadeFrom (array.children.map Prod.snd) devices := by
  cases number : stoul (cstr (root.get (text "offset") (text "0"))) with
  | error exn =>
      unfold loadDevices at loaded
      simp only [number] at loaded
      cases loaded
  | ok offset =>
      rw [loadDevices_eq number entries, mapM_eq_ok_iff] at loaded
      rw [List.forall₂_map_left_iff]
      exact loaded.imp fun _ _ => parseDevice_madeFrom

/-! ## The devices of a device tree -/

/-- A device of a tree has the name of its directory, and so have its
specifications. -/
theorem deviceOf_named {tree : DeviceTree} {dir : Text × DirEntries} {dev : TreeDevice}
    (device : deviceOf tree dir = some dev) :
    dev.name = dir.1 ∧ ∀ ds ∈ dev.spec, ds.name = dir.1 := by
  rw [deviceOf] at device
  split at device
  · cases device
    refine ⟨rfl, fun ds member => ?_⟩
    obtain ⟨spec, _, same⟩ := List.mem_map.mp member
    rw [← same]
    rfl
  · cases device

theorem dirsIn_named {root : DirEntries} (directories : Everywhere IsDirectory root)
    {dir : Text × DirEntries} (member : dir ∈ dirsIn root) : dir.1 ≠ [] := by
  have named : Everywhere Named root :=
    ⟨directories.1.named, fun dir inside => (directories.below inside).named⟩
  have ⟨path, found⟩ := at_of_mem_dirsIn named member
  rw [DirTree.at_append] at found
  cases above : (DirTree.dir root).at path with
  | none =>
      rw [above] at found
      cases found
  | some node =>
      rw [above, Option.bind_some] at found
      cases node with
      | leaf kind => cases found
      | dir entries =>
          have ⟨sub, inside, _⟩ := Option.bind_eq_some_iff.mp found
          exact (directories.at above).names_nonempty _
            (List.mem_map_of_mem (f := Prod.fst) (mem_of_child inside))

theorem meets_of_deviceOf {tree : DeviceTree} {dir : Text × DirEntries} {dev : TreeDevice}
    (device : deviceOf tree dir = some dev) (proper : dir.1 ≠ []) {n : Text} (named : n ≠ []) :
    treeSpecs.meets dev (nameSpec n) = true ↔ dir.1 = n := by
  have ⟨name, names⟩ := deviceOf_named device
  rw [meets_nameSpec named names, name]
  by_cases nothing : dev.spec = []
  · exact ⟨fun found => (found.resolve_right fun other => other.1 nothing).2,
      fun same => Or.inl ⟨nothing, same⟩⟩
  · exact ⟨fun found => (found.resolve_left fun other => nothing other.1).2.resolve_left proper,
      fun same => Or.inr ⟨nothing, Or.inr same⟩⟩

theorem filter_filterMap_of_iff {Source Target : Type} {make : Source → Option Target}
    {source : Source → Bool} {target : Target → Bool} {sources : List Source}
    (same : ∀ a ∈ sources, ∀ b, make a = some b → target b = source a) :
    (sources.filterMap make).filter target = (sources.filter source).filterMap make := by
  induction sources with
  | nil => rfl
  | cons a sources before =>
      have rest := before fun a member => same a (List.mem_cons_of_mem _ member)
      cases made : make a with
      | none =>
          rw [List.filterMap_cons_none made, rest, List.filter_cons]
          split
          · rw [List.filterMap_cons_none made]
          · rfl
      | some b =>
          have first := same a List.mem_cons_self b made
          rw [List.filterMap_cons_some made, List.filter_cons, List.filter_cons, first, rest]
          cases source a with
          | true => exact (List.filterMap_cons_some made).symm
          | false => rfl

/-- A loaded tree is found by the names of its directories. -/
theorem tree_found {n : Text} (named : n ≠ []) {tree : DeviceTree} {sort : StdSort TreeDevice}
    {fuel : Nat} {bus : HwioBusDevicetree} (directories : Everywhere IsDirectory tree.root)
    (returned : HwioBusDevicetree.new tree sort fuel = some (.ok bus)) :
    bus.findDevices [nameSpec n] = bus.allDevices.filter (fun dev => dev.name = n) ∧
      (bus.findDevices [nameSpec n]).Perm
        (((dirsIn tree.root).filter fun dir => dir.1 = n).filterMap (deviceOf tree)) := by
  have all := allDevices_of_new directories returned
  have perm := sort.perm devAddrCmp_strictWeak (described tree)
  have found := findDevices_nameSpec bus.allDevices n
  rw [HwioBusDevicetree.findDevices, found]
  constructor
  · apply List.filter_congr
    intro dev member
    rw [all, perm.mem_iff, described, List.mem_filterMap] at member
    obtain ⟨dir, inside, device⟩ := member
    rw [Bool.eq_iff_iff, decide_eq_true_eq, (deviceOf_named device).1]
    exact meets_of_deviceOf device (dirsIn_named directories inside) named
  · have same := @filter_filterMap_of_iff _ _ (deviceOf tree) (fun dir => decide (dir.1 = n))
      (fun dev => treeSpecs.meets dev (nameSpec n)) (dirsIn tree.root) (by
        intro dir inside dev device
        rw [Bool.eq_iff_iff, decide_eq_true_eq]
        exact meets_of_deviceOf device (dirsIn_named directories inside) named)
    rw [all, ← same]
    exact perm.filter _

/-! ## Both buses -/

/-- A name finds exactly the devices of a loaded tree whose directory has it; it
finds exactly the devices of a loaded description that have it, just when they
have a compatible string each and no entry without a name has one. -/
theorem name_identifies_iff {n : Text} (named : n ≠ []) :
    (∀ {pageSize : UInt32} {root array : Ptree} {devices : List TreeDevice},
      root.getChild (text "devices") = .ok array → loadDevices pageSize root = .ok devices →
        (HwioBusJson.findDevices devices [nameSpec n] =
            (((array.children.map Prod.snd).zip devices).filter fun entry =>
              entry.1.entryName = n).map Prod.snd ↔
          ∀ src ∈ array.children.map Prod.snd, (src.entryName = [] → src.compatible = []) ∧
            (src.entryName = n → src.compatible ≠ []))) ∧
      ∀ {tree : DeviceTree} {sort : StdSort TreeDevice} {fuel : Nat} {bus : HwioBusDevicetree},
        Everywhere IsDirectory tree.root →
          HwioBusDevicetree.new tree sort fuel = some (.ok bus) →
            bus.findDevices [nameSpec n] = bus.allDevices.filter (fun dev => dev.name = n) ∧
              (bus.findDevices [nameSpec n]).Perm
                (((dirsIn tree.root).filter fun dir => dir.1 = n).filterMap (deviceOf tree)) :=
  ⟨fun entries loaded => json_found_iff named (loadDevices_madeFrom entries loaded),
    fun directories returned => tree_found named directories returned⟩

/-- The device of a document is found by its name, and so is the serial port of
the board. -/
theorem dma_and_serial_found :
    (∃ devices, loadDevices 4096 (oneEntry "0x1000" "0x1000") = .ok devices ∧
        HwioBusJson.findDevices devices [nameSpec (text "dma")] = devices) ∧
      ∃ walk devices, HwioBusDevicetree.new board (mergeSorted TreeDevice) 9 =
          some (.ok { walk := walk, allDevices := devices }) ∧
        devices.filter (fun dev => dev.name = text "serial") =
          HwioBusDevicetree.findDevices { walk := walk, allDevices := devices }
            [nameSpec (text "serial")] := by
  constructor
  · cases loaded : loadDevices 4096 (oneEntry "0x1000" "0x1000") with
    | error failure =>
        have loads : (loadDevices 4096 (oneEntry "0x1000" "0x1000")).toOption.isSome = true := by
          decide +kernel
        rw [loaded] at loads
        cases loads
    | ok devices =>
        have one := @loadDevices_madeFrom 4096 (oneEntry "0x1000" "0x1000") _ _ rfl loaded
        obtain ⟨dev, rest, origin, none, rfl⟩ := List.forall₂_cons_left_iff.mp one
        obtain rfl := List.forall₂_nil_left_iff.mp none
        refine ⟨_, rfl, ((name_identifies_iff (by decide)).1 rfl loaded).mpr ?_⟩
        intro src member
        obtain rfl := List.mem_singleton.mp member
        exact ⟨nofun, fun _ => nofun⟩
  · have ⟨readable, devices, walk, returned, _⟩ := board_discovered
    have found := (@name_identifies_iff (text "serial") (by decide)).2 readable.directories
      returned
    exact ⟨walk, devices, returned, found.1.symm⟩

/-- A document with a serial port without compatible strings and a device without
a name. -/
def nameless : Ptree :=
  .node [] [(text "devices", .node []
    [([], .node [] [(text "name", .leaf (text "uart")), (text "base", .leaf (text "0x1000")),
        (text "size", .leaf (text "0x1000")), (text "compatible", .node [] [])]),
      ([], .node [] [(text "base", .leaf (text "0x2000")), (text "size", .leaf (text "0x2000")),
        (text "compatible", .node [] [([], .leaf (text "xlnx,axi-dma-1.2"))])])])]

/-- The name finds the other device. -/
theorem other_device_found :
    ∃ array devices, nameless.getChild (text "devices") = .ok array ∧
      loadDevices 4096 nameless = .ok devices ∧
      HwioBusJson.findDevices devices [nameSpec (text "uart")] ≠
        (((array.children.map Prod.snd).zip devices).filter fun entry =>
          entry.1.entryName = text "uart").map Prod.snd := by
  cases loaded : loadDevices 4096 nameless with
  | error failure =>
      have loads : (loadDevices 4096 nameless).toOption.isSome = true := by decide +kernel
      rw [loaded] at loads
      cases loads
  | ok devices =>
      refine ⟨_, devices, rfl, rfl, fun same => ?_⟩
      have made := @loadDevices_madeFrom 4096 nameless _ _ rfl loaded
      have borne := (json_found_iff (by decide) made).mp same
      have ⟨_, strings⟩ := borne _ List.mem_cons_self
      exact strings rfl rfl

end Hwio
