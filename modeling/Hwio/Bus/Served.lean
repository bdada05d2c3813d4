import Hwio.Bus.Names
import Hwio.Device.Regions
import Hwio.Device.Window

/-!
Contract: the buses of a server that were loaded from descriptions.

Owns the devices of loaded buses behind their pointers, what these buses find,
and where the devices are in a memory.

Does not own what clients do with them.
-/

namespace Hwio

open Library

variable {World : Type}

/-! ## Loaded buses -/

/-- The devices of a bus that was constructed from a JSON document or from a
device tree. -/
inductive LoadedBus (pageSize : UInt32) : List TreeDevice → Prop
  | json {root : Ptree} {devices : List TreeDevice}
      (loaded : loadDevices pageSize root = .ok devices) : LoadedBus pageSize devices
  | devicetree {tree : DeviceTree} {sort : StdSort TreeDevice} {fuel : Nat}
      {bus : HwioBusDevicetree} (pages : tree.pageSize = pageSize)
      (constructed : HwioBusDevicetree.new tree sort fuel = some (.ok bus)) :
      LoadedBus pageSize bus.allDevices

/-- The device was made by the constructor of `hwio_device_mmap`. -/
def TreeDevice.Constructed (pageSize : UInt32) (dev : TreeDevice) : Prop :=
  ∃ base size file, dev.mmap = HwioDeviceMmap.new pageSize base size file

theorem parseDevice_constructed {pageSize offset : UInt32} {src : Ptree} {memFilePath : Text}
    {dev : TreeDevice} (parsed : parseDevice pageSize src offset memFilePath = .ok dev) :
    dev.Constructed pageSize := by
  unfold parseDevice at parsed
  simp only at parsed
  split at parsed
  · cases parsed
  split at parsed
  · cases parsed
  obtain ⟨array, _, parsed⟩ := bind_eq_ok_iff.mp parsed
  obtain ⟨specs, _, parsed⟩ := bind_eq_ok_iff.mp parsed
  obtain ⟨size, _, parsed⟩ := bind_eq_ok_iff.mp parsed
  obtain ⟨base, _, same⟩ := bind_eq_ok_iff.mp parsed
  cases same
  exact ⟨_, _, _, rfl⟩

theorem devFromDir_constructed {tree : DeviceTree} {pathStack : List Text} {curr after : Dir}
    {dev : TreeDevice} (made : devFromDir tree pathStack curr = .ok (some dev, after)) :
    dev.Constructed tree.pageSize := by
  unfold devFromDir at made
  split at made
  · cases made
  · cases made
  · simp only at made
    split at made
    · cases made
    · cases made
    · cases made
      exact ⟨_, _, _, rfl⟩

theorem deviceNextBody_constructed {tree : DeviceTree} {walk later : Walk} {dev : TreeDevice}
    (yields : deviceNextBody tree walk = .yields dev later) : dev.Constructed tree.pageSize := by
  unfold deviceNextBody at yields
  split at yields
  · cases yields
  · split at yields
    · simp only at yields
      split at yields
      · split at yields
        · cases yields
        next made =>
          split at yields
          · cases yields
            exact devFromDir_constructed made
          · cases yields
      · cases yields
    · split at yields
      · cases yields
      · cases yields
      · cases yields

/-- Both loaders make their devices with one constructor. -/
theorem LoadedBus.constructed {pageSize : UInt32} {devices : List TreeDevice}
    (loaded : LoadedBus pageSize devices) : ∀ dev ∈ devices, dev.Constructed pageSize := by
  intro dev member
  cases loaded with
  | @json root _ loaded =>
      unfold loadDevices at loaded
      obtain ⟨offset, _, loaded⟩ := bind_eq_ok_iff.mp loaded
      obtain ⟨array, _, loaded⟩ := bind_eq_ok_iff.mp loaded
      obtain ⟨source, _, made⟩ := exists_source_of_mapM loaded member
      exact parseDevice_constructed made
  | @devicetree tree sort fuel bus pages constructed =>
      subst pages
      rw [HwioBusDevicetree.new] at constructed
      rcases found : HwioBusDevicetree.devices tree fuel with _ | failure | ⟨devices, last⟩
      · rw [found] at constructed
        cases constructed
      · rw [found] at constructed
        cases constructed
      · rw [found] at constructed
        simp only at constructed
        split at constructed
        · cases constructed
          have listed := (sort.perm devAddrCmp_strictWeak devices).mem_iff.mp member
          exact drain_good deviceNextBody_constructed found dev listed
        · cases constructed

/-! ## Devices behind pointers -/

/-- `name()` and `get_spec()` of the devices behind pointers -/
def pointerSpecs (devices : List TreeDevice) : DeviceSpecs DevPtr where
  name dev := ((devices[dev]?).map TreeDevice.name).getD []
  getSpec dev := ((devices[dev]?).map TreeDevice.spec).getD []

/-- `find_devices` of a bus whose `_all_devices` are pointers from `first` on. -/
def loadedBus (devices : List TreeDevice) (first count : Nat) : IhwioBus World where
  findDevices spec world :=
    (.ok ((pointerSpecs devices).filterDeviceBySpec (List.range' first count) spec), world)

/-- Several buses with all of their devices behind one another. -/
def loadedBuses (devices : List TreeDevice) :
    Nat → List (List TreeDevice) → List (IhwioBus World)
  | _, [] => []
  | first, bus :: rest =>
      loadedBus devices first bus.length :: loadedBuses devices (first + bus.length) rest

/-- A pointer to no device. -/
def noDevice : ServedDevice World where
  attach world := (none, world)
  read _ count world := (⟨List.replicate count 0, none⟩, world)
  write _ _ world := (none, world)
  read_le _ _ _ := Nat.le_of_eq List.length_replicate
  read_all _ _ _ _ := List.length_replicate

/-- A server with these buses and their devices, and the plugins of another one. -/
def loadedTables (others : Tables (Observed World)) (buses : List (List TreeDevice))
    (sys : DevPtr → MmapSys World) (memory : DevPtr → MappedMemory World) :
    Tables (Observed World) :=
  { others with
    device := fun dev =>
      match buses.flatten[dev]? with
      | none => noDevice
      | some found => found.mmap.served (sys dev) (memory dev) dev
    buses := loadedBuses buses.flatten 0 buses }

/-! ## What the buses find -/

/-- A lookup on a loaded bus changes nothing. -/
theorem loadedBuses_silent {devices : List TreeDevice} {first : Nat}
    {buses : List (List TreeDevice)} {bus : IhwioBus World}
    (member : bus ∈ loadedBuses devices first buses) (spec : List HwioCompSpec) (world : World) :
    (bus.findDevices spec world).2 = world := by
  induction buses generalizing first with
  | nil => exact absurd member List.not_mem_nil
  | cons part rest inductionHypothesis =>
      rcases List.mem_cons.mp member with rfl | later
      · rfl
      · exact inductionHypothesis later

theorem pointerSpecs_meets {devices : List TreeDevice} {ptr : DevPtr} {dev : TreeDevice}
    (there : devices[ptr]? = some dev) (s : HwioCompSpec) :
    (pointerSpecs devices).meets ptr s = treeSpecs.meets dev s := by
  unfold DeviceSpecs.meets
  have name : (pointerSpecs devices).name ptr = treeSpecs.name dev := by
    show ((devices[ptr]?).map TreeDevice.name).getD [] = _
    rw [there]
    rfl
  have specs : (pointerSpecs devices).getSpec ptr = treeSpecs.getSpec dev := by
    show ((devices[ptr]?).map TreeDevice.spec).getD [] = _
    rw [there]
    rfl
  rw [name, specs]

/-- The pointers that are found are those of the devices that are. -/
theorem filter_pointers {devices front back : List TreeDevice} (whole : devices = front ++ back)
    (spec : List HwioCompSpec) :
    List.Forall₂ (fun ptr dev => devices[ptr]? = some dev)
      ((List.range' front.length back.length).filter fun ptr =>
        spec.any ((pointerSpecs devices).meets ptr))
      (back.filter fun dev => spec.any (treeSpecs.meets dev)) := by
  induction back generalizing front with
  | nil => exact .nil
  | cons dev back inductionHypothesis =>
      have there : devices[front.length]? = some dev := by
        rw [whole, List.getElem?_append_right (Nat.le_refl _), Nat.sub_self]
        rfl
      have later := @inductionHypothesis (front ++ [dev]) (by
        rw [whole, List.append_assoc]
        rfl)
      rw [List.length_append, List.length_singleton] at later
      have same : spec.any ((pointerSpecs devices).meets front.length) =
          spec.any (treeSpecs.meets dev) := by
        congr 1
        funext s
        exact pointerSpecs_meets there s
      rw [List.length_cons, List.range'_succ, List.filter_cons, List.filter_cons, same]
      split
      · exact .cons there later
      · exact later

/-! ## Where the devices are -/

namespace HwioDeviceMmap

variable {pageSize base size : UInt32} (page : IsPageSize pageSize) (file : Text)

include page

/-- The constructor places a device at its base. -/
theorem new_place :
    (new pageSize base size file).pageAddr.toNat + (new pageSize base size file).pageOffset.toNat =
      base.toNat := by
  rw [pageAddr_new page, pageOffset_new page]
  exact Nat.sub_add_cancel (Nat.mod_le _ _)

/-- What it maps covers the device. -/
theorem new_covered :
    (new pageSize base size file).pageOffset.toNat + (new pageSize base size file).onBusSize.toNat ≤
      (new pageSize base size file).addrSpaceSize := by
  obtain ⟨two, _⟩ := page.bounds
  have below : base.toNat % pageSize.toNat < pageSize.toNat := Nat.mod_lt _ (by omega)
  rw [pageOffset_new page, addrSpaceSize_new page file]
  show _ + size.toNat ≤ _
  omega

end HwioDeviceMmap

/-- Where a device begins, when the bytes of a file are those from `origin` on. -/
def TreeDevice.place (origin : Text → Nat) (dev : TreeDevice) : Nat :=
  origin dev.mmap.memFileName + dev.mmap.onBusBaseAddr.toNat

/-- The place of the device behind a pointer. -/
def placeOf (origin : Text → Nat) (devices : List TreeDevice) (dev : DevPtr) : Nat :=
  ((devices[dev]?).map (TreeDevice.place origin)).getD 0

/-- The size of the device behind a pointer. -/
def sizeOfDev (devices : List TreeDevice) (dev : DevPtr) : Nat :=
  ((devices[dev]?).map fun found => found.mmap.onBusSize.toNat).getD 0

theorem noDevice_region (cells : World → Cells) (base : Nat) :
    (noDevice : ServedDevice World).Region cells base 0 where
  attach _ := rfl
  read offset n world inside := by
    obtain rfl : n = 0 := by omega
    exact ⟨rfl, rfl⟩
  write offset data world inside := by
    obtain rfl : data = [] := List.eq_nil_of_length_eq_zero (by omega)
    rw [Cells.put_nil]
    exact ⟨rfl, rfl⟩

end Hwio
