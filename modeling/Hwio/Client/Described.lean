import Hwio.Client.SharedMemory

/-!
Contract: clients of a server whose buses were loaded from descriptions.

Owns what a lookup finds in the descriptions, and that the proxies which a client
gets stand for the described devices from then on.

Does not own what a description says.
-/

namespace Hwio

open Library HwioServer

variable {World : Type}

namespace Hub

/-! ## What stays held -/

theorem hold_grows (tables : Tables World) (found held : List DevPtr) (world : World) :
    held <+: (hold tables found held world).2.1 := by
  induction found generalizing held world with
  | nil => exact List.prefix_rfl
  | cons dev rest inductionHypothesis =>
      rw [hold]
      by_cases known : dev ∈ held
      · rw [if_pos known]
        exact inductionHypothesis held world
      rw [if_neg known]
      by_cases below : held.length < 65536
      · rw [if_pos below]
        rcases (tables.device dev).attach world with ⟨exn, world'⟩
        cases exn with
        | none => exact (List.prefix_append held [dev]).trans (inductionHypothesis _ world')
        | some exn => exact List.prefix_append held [dev]
      · rw [if_neg below]

/-- When all devices can be held, all are. -/
theorem mem_of_hold {tables : Tables World} {found held : List DevPtr} {world : World}
    (all : (hold tables found held world).1 = true) :
    ∀ dev ∈ found, dev ∈ (hold tables found held world).2.1 := by
  induction found generalizing held world with
  | nil => exact List.forall_mem_nil _
  | cons dev rest inductionHypothesis =>
      rw [List.forall_mem_cons]
      rw [hold] at all ⊢
      by_cases known : dev ∈ held
      · rw [if_pos known] at all ⊢
        exact ⟨(hold_grows tables rest held world).subset known, inductionHypothesis all⟩
      rw [if_neg known] at all ⊢
      by_cases below : held.length < 65536
      · rw [if_pos below] at all ⊢
        rcases attached : (tables.device dev).attach world with ⟨exn, world'⟩
        rw [attached] at all
        cases exn with
        | none =>
            refine ⟨?_, inductionHypothesis all⟩
            apply (hold_grows tables rest (held ++ [dev]) world').subset
            exact List.mem_append_right _ (List.mem_singleton.mpr rfl)
        | some exn => cases all
      · rw [if_neg below] at all
        cases all

section

variable (tables : Tables World) (hub : Hub World)

theorem perform_grows (entry : ClientPtr × Op) (owner : ClientPtr) :
    hub.held owner <+: (hub.perform tables entry).2.held owner := by
  obtain ⟨other, op⟩ := entry
  by_cases own : owner = other
  · subst own
    by_cases lookup : ∃ spec, op = .findDevices spec
    · obtain ⟨spec, rfl⟩ := lookup
      simp only [perform, lookUp]
      rcases findOnAll spec tables.buses hub.world with ⟨found, world⟩
      cases found with
      | none => exact List.prefix_rfl
      | some found =>
          simp only [Function.update_self]
          exact hold_grows tables found (hub.held owner) world
    · rw [hub.perform_held tables owner fun spec same => lookup ⟨spec, same⟩]
  · rw [hub.perform_other tables other own]

/-- A client loses none of its devices. -/
theorem runAll_grows (order : List (ClientPtr × Op)) (owner : ClientPtr) :
    hub.held owner <+: (runAll (perform tables) order hub).2.held owner := by
  have each : ∀ entry ∈ order, ∀ before : Hub World,
      before.held owner <+: (perform tables entry before).2.held owner :=
    fun entry _ before => before.perform_grows tables entry owner
  exact @runAll_related _ _ _ (perform tables)
    (fun before after => before.held owner <+: after.held owner)
    (fun _ => List.prefix_rfl) (fun _ _ _ => List.IsPrefix.trans) order each hub

end

/-! ## Lookups in descriptions -/

/-- A lookup that returns gives the places of all that was found. -/
theorem lookUp_returned {tables : Tables World} {hub : Hub World} {owner : ClientPtr}
    {spec : List HwioCompSpec} {result : Result}
    (returned : (hub.lookUp tables owner spec).1 = .returned result) :
    ∃ found, (findOnAll spec tables.buses hub.world).1 = some found ∧
      let held := (hub.lookUp tables owner spec).2.held owner
      result = .devices (found.map held.idxOf) ∧ ∀ dev ∈ found, held[held.idxOf dev]? = some dev := by
  unfold lookUp at returned ⊢
  generalize findOnAll spec tables.buses hub.world = looked at returned ⊢
  rcases looked with ⟨found, world⟩
  cases found with
  | none => cases returned
  | some found =>
      have within := @mem_of_hold _ tables found (hub.held owner) world
      simp only at returned ⊢
      generalize hold tables found (hub.held owner) world = holding at returned within ⊢
      rcases holding with ⟨all, held, after⟩
      simp only [Function.update_self] at returned ⊢
      split at returned
      next fine =>
        cases returned
        exact ⟨found, rfl, rfl, fun dev member => List.getElem?_idxOf (within fine.1 dev member)⟩
      next => cases returned

theorem findOnAll_loaded (devices : List TreeDevice) (spec : List HwioCompSpec)
    (buses : List (List TreeDevice)) (first : Nat) (world : World) :
    findOnAll spec (loadedBuses devices first buses) world =
      (some ((List.range' first buses.flatten.length).filter fun ptr =>
        spec.any ((pointerSpecs devices).meets ptr)), world) := by
  induction buses generalizing first with
  | nil => rfl
  | cons bus buses inductionHypothesis =>
      rw [loadedBuses, findOnAll, loadedBus]
      simp only [inductionHypothesis, DeviceSpecs.filterDeviceBySpec_eq, Option.map_some]
      rw [← List.filter_append, List.flatten_cons, List.length_append, List.range'_append_1]

end Hub

/-! ## Proxies of described devices -/

/-- Since a call of its client, a place among the proxies stands for a device whose
bytes are those from `address` on: what is written through it is put there, and a
read through it gives what was put there last. -/
structure System.StandsFor (tables : Tables World) (cells : World → Cells) (base : DevPtr → Nat)
    (world : World) (programs : ClientPtr → List Op) (system : System World) (owner : ClientPtr)
    (since place address : Nat) : Prop where
  writes : ∀ front back id offset data,
    system.order programs = front ++ (owner, .write id offset data) :: back →
    since ≤ (callsOf owner front).length → id.toNat = place → place < maxDevices →
      (runAll (Hub.perform tables) front (Hub.start world)).2.patchesOf base
        (owner, .write id offset data) = [⟨address + offset.toNat, data⟩]
  reads : ∀ (k : Nat) call id offset n, since ≤ k →
    (system.clients owner).done[k]? = some call → call.op = .read id offset n →
    id.toNat = place → system.Unfailed tables world programs owner k →
      ∃ front back bytes, system.order programs = front ++ (owner, .read id offset n) :: back ∧
        (callsOf owner front).length = k ∧ call.result = .ok (.bytes bytes) ∧ bytes.length = n ∧
        ∀ i byte, bytes[i]? = some byte →
          (cells world).LastPut (Hub.patchesIn tables base front (Hub.start world))
            (address + offset.toNat + i) byte

/-- A place at which a client holds a device stands for it. -/
theorem System.standsFor {tables : Tables World} {cells : World → Cells}
    {base size : DevPtr → Nat} (shares : tables.Shares cells base size) {master : Fd}
    {tx : List Byte} {world : World} {buffers : ClientPtr → List Byte × List Byte}
    {programs : ClientPtr → List Op} {system : System World}
    (steps : System.Steps (System.begin tables master tx world buffers programs) system)
    (intact : ∀ owner, ∀ op ∈ programs owner, op.Intact tables)
    (inside : Hub.AllInside tables size (system.order programs) (Hub.start world))
    {owner : ClientPtr} {op : Op} {front back : List (ClientPtr × Op)}
    (ordered : system.order programs = front ++ (owner, op) :: back) {place : Nat} {dev : DevPtr}
    (held : (((runAll (Hub.perform tables) front (Hub.start world)).2.perform tables
      (owner, op)).2.held owner)[place]? = some dev) :
    system.StandsFor tables cells base world programs owner ((callsOf owner front).length + 1)
      place (base dev) := by
  have resolved : ∀ later rest, system.order programs = later ++ rest →
      (callsOf owner front).length + 1 ≤ (callsOf owner later).length → ∀ id : UInt16,
        id.toNat = place →
          (runAll (Hub.perform tables) later (Hub.start world)).2.device owner id = some dev := by
    rintro later rest whole past id rfl
    obtain ⟨more, rfl⟩ := front_reaches (ordered.symm.trans whole) past
    rw [← runAll_snoc] at held
    rw [Hub.device, runAll_append]
    exact getElem?_of_isPrefix (Hub.runAll_grows tables _ more owner) held
  exact {
    writes := by
      intro later rest id offset data whole past at_place small
      have there := resolved later _ whole past id at_place
      rw [Hub.patchesOf]
      simp only [there]
      rw [if_neg (Nat.not_le.mpr (at_place ▸ small))]
    reads := by
      intro k call id offset n past done reads at_place unfailed
      obtain ⟨later, rest, whole, length, _, given⟩ :=
        System.read_placed shares steps intact inside done reads unfailed
      have there := resolved later _ whole (length ▸ past) id at_place
      obtain ⟨bytes, result, count, last⟩ := given dev there
      exact ⟨later, rest, bytes, whole, length, result, count, last⟩ }

/-- Whatever JSON documents and device trees the buses of a server were loaded
from, in every state of every run of it and any number of clients whose accesses lie
inside of the devices: the memory that the mappings show holds what the writes put
there; and a lookup that returned, with no call before it on its connection that
failed, gave one place for each device of the descriptions that meets the query, in
their order, and each of these places stands from then on for the device of its
description, at the address in its file that the device was loaded with. -/
theorem described_devices_served {others : Tables (Observed World)}
    {buses : List (List TreeDevice)} {sys : DevPtr → MmapSys World}
    {memory : DevPtr → MappedMemory World} {cells : World → Cells} {origin : Text → Nat}
    {pageSize : UInt32}
    (page : HwioDeviceMmap.IsPageSize pageSize) (loaded : ∀ bus ∈ buses, LoadedBus pageSize bus)
    (opens : ∀ ptr world, cells ((sys ptr).openFile world).2 = cells world)
    (maps : ∀ ptr fd length addr world,
      cells ((sys ptr).mmap fd length addr world).2 = cells world)
    (mapped : ∀ ptr dev, buses.flatten[ptr]? = some dev →
      (memory ptr).Shows cells (origin dev.mmap.memFileName + dev.mmap.pageAddr.toNat)
        dev.mmap.addrSpaceSize)
    (plugins : ∀ plugin, others.Registers plugin → ∀ dev args,
      Blind (fun observed : Observed World => cells observed.world) (plugin.fn dev args))
    {master : Fd} {tx : List Byte} {world : Observed World}
    {buffers : ClientPtr → List Byte × List Byte} {programs : ClientPtr → List Op}
    {system : System (Observed World)}
    (steps : System.Steps
      (System.begin (loadedTables others buses sys memory) master tx world buffers programs) system)
    (intact : ∀ owner, ∀ op ∈ programs owner, op.Intact (loadedTables others buses sys memory))
    (inside : Hub.AllInside (loadedTables others buses sys memory) (sizeOfDev buses.flatten)
      (system.order programs) (Hub.start world)) :
    let tables := loadedTables others buses sys memory
    let base := placeOf origin buses.flatten
    let seen := fun observed : Observed World => cells observed.world
    seen system.server.world = (seen world).patched
        (Hub.patchesIn tables base (system.order programs) (Hub.start world)) ∧
      ∀ (owner : ClientPtr) (k : Nat) call spec, (system.clients owner).done[k]? = some call →
        call.op = .findDevices spec → system.Unfailed tables world programs owner (k + 1) →
          ∃ places, call.result = .ok (.devices places) ∧
            List.Forall₂ (fun place dev => system.StandsFor tables seen base world programs owner
                (k + 1) place (TreeDevice.place origin dev))
              places (buses.flatten.filter fun dev => spec.any (treeSpecs.meets dev)) := by
  intro tables base seen
  have shares : tables.Shares seen base (sizeOfDev buses.flatten) :=
    loadedTables_shares page loaded opens maps mapped plugins
  constructor
  · have tracked := System.tracks steps intact List.prefix_rfl
    rw [show system.server.world = system.server.service.world from rfl,
      (System.server_reached steps).service_prepared, tracked.world]
    exact Hub.runAll_cells shares inside
  · intro owner k call spec done looks unfailed
    have waits : call.op.waits = true := by
      rw [looks]
      rfl
    have earlier : system.Unfailed tables world programs owner k :=
      fun j upshot before => unfailed j upshot (Nat.lt_succ_of_lt before)
    obtain ⟨upshot, answer, gives⟩ := System.awaited_gives steps intact done waits earlier
    obtain ⟨result, rfl⟩ := unfailed k upshot (Nat.lt_succ_self k) answer
    obtain ⟨front, back, ordered, length, same⟩ := System.answer_placed steps done answer
    rw [looks] at ordered same
    obtain ⟨found, search, places, held⟩ := Hub.lookUp_returned same.symm
    rw [show tables.buses = loadedBuses buses.flatten 0 buses from rfl, Hub.findOnAll_loaded]
      at search
    obtain rfl := Option.some.inj search
    refine ⟨_, gives.trans (congrArg Except.ok places), ?_⟩
    rw [List.forall₂_map_left_iff]
    have pointers := @filter_pointers buses.flatten [] buses.flatten rfl spec
    have each := (List.forall₂_and_left _ _).mpr ⟨held, pointers⟩
    refine each.imp fun ptr dev both => ?_
    obtain ⟨at_place, there⟩ := both
    have address : TreeDevice.place origin dev = base ptr := by
      show _ = ((buses.flatten[ptr]?).map (TreeDevice.place origin)).getD 0
      rw [there]
      rfl
    rw [address, ← length]
    exact System.standsFor shares steps intact inside ordered at_place

/-- The device of a JSON document is found by its type, and the register that one
client wrote is read by another one. -/
theorem described_register_read : ∃ found call,
    (writtenAndRead.clients 1).done[0]? = some found ∧ found.result = .ok (.devices [0]) ∧
      (writtenAndRead.clients 1).done[1]? = some call ∧ call.result = .ok (.bytes [7]) := by
  have page : HwioDeviceMmap.IsPageSize 4096 := ⟨12, by decide, by decide, rfl⟩
  obtain ⟨_, finds⟩ := @described_devices_served Cells noPlugins [[dmaPage]] _ _ id (fun _ => 0) 4096
    page
    (fun bus member => by
      obtain rfl := List.mem_singleton.mp member
      exact .json dmaPage_loaded)
    (fun ptr world => rfl) (fun ptr fd length addr world => rfl)
    (fun ptr dev there => by
      obtain rfl := List.mem_singleton.mp (List.mem_of_getElem? there)
      exact mappedCells_shows 0x40000000 _)
    (fun plugin registered => by
      rcases registered with ⟨name, found⟩ | member
      · cases found
      · cases member)
    _ _ _ _ _ _ writtenAndRead_steps writerAndReader_intact writtenAndRead_inside
  obtain ⟨found, looked⟩ : ∃ found, (writtenAndRead.clients 1).done[0]? = some found := ⟨_, rfl⟩
  have asked : found.op = .findDevices [axiDma] := by
    obtain rfl := Option.some.inj (show some _ = some found from looked)
    rfl
  have first : found.result = .ok (.devices [0]) := by
    obtain rfl := Option.some.inj (show some _ = some found from looked)
    decide +kernel
  obtain ⟨places, result, all⟩ := finds 1 0 found [axiDma] looked asked (writtenAndRead_unfailed 1)
  obtain rfl := Result.devices.inj (Except.ok.inj (result.symm.trans first))
  have listed : (([[dmaPage]].flatten).filter fun dev => [axiDma].any (treeSpecs.meets dev)) =
      [dmaPage] := by
    decide +kernel
  rw [listed] at all
  obtain ⟨stands, _⟩ := List.forall₂_cons.mp all
  obtain ⟨call, done⟩ : ∃ call, (writtenAndRead.clients 1).done[1]? = some call := ⟨_, rfl⟩
  have reads : call.op = .read 0 8 1 := by
    obtain rfl := Option.some.inj (show some _ = some call from done)
    rfl
  obtain ⟨front, back, bytes, ordered, length, read, one, last⟩ :=
    stands.reads 1 call 0 8 1 (Nat.le_refl _) done reads rfl (writtenAndRead_unfailed 1)
  obtain rfl := read_front ordered length
  obtain ⟨byte, rfl⟩ := List.length_eq_one_iff.mp one
  obtain rfl := register_written (last 0 byte rfl)
  exact ⟨found, call, looked, first, done, read⟩

end Hwio
