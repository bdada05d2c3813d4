import Hwio.Bus.Served
import Hwio.Device.Releasing
import Hwio.Server.Lifetime
import Hwio.Server.Worlds

/-!
Contract: the devices of a server from before its setup until its buses are deleted.

Owns the destructors of the loaded buses, that servers keep the account of what was
granted to their devices, and what the kernel did for each device in the end.

Does not own the sockets of the server.
-/

namespace Hwio

open Library

variable {World : Type}

/-! ## The destructors of the buses -/

/-- The loop of `hwio_bus_json::~hwio_bus_json` and of
`hwio_bus_devicetree::~hwio_bus_devicetree` over `_all_devices`, which are the pointers
from `first` on. -/
def deleteDevices (release : DevPtr → ReleaseSys World) :
    DevPtr → List TreeDevice → Observed World → Observed World
  | _, [], observed => observed
  | first, dev :: rest, observed =>
      deleteDevices release (first + 1) rest (dev.mmap.destroy (release first) first observed)

/-- The loop of `hwio_bus_composite::~hwio_bus_composite` over `_buses`. -/
def deleteBuses (release : DevPtr → ReleaseSys World) :
    DevPtr → List (List TreeDevice) → Observed World → Observed World
  | _, [], observed => observed
  | first, bus :: rest, observed =>
      deleteBuses release (first + bus.length) rest (deleteDevices release first bus observed)

theorem deleteDevices_append (release : DevPtr → ReleaseSys World) (first : DevPtr)
    (front back : List TreeDevice) (observed : Observed World) :
    deleteDevices release first (front ++ back) observed =
      deleteDevices release (first + front.length) back
        (deleteDevices release first front observed) := by
  induction front generalizing first observed with
  | nil => rfl
  | cons dev rest inductionHypothesis =>
      rw [List.cons_append, deleteDevices, inductionHypothesis, deleteDevices, List.length_cons,
        Nat.add_assoc, Nat.add_comm 1]

/-- The buses delete all of their devices, one after the other. -/
theorem deleteBuses_eq (release : DevPtr → ReleaseSys World) (first : DevPtr)
    (buses : List (List TreeDevice)) (observed : Observed World) :
    deleteBuses release first buses observed =
      deleteDevices release first buses.flatten observed := by
  induction buses generalizing first observed with
  | nil => rfl
  | cons bus rest inductionHypothesis =>
      rw [deleteBuses, inductionHypothesis, List.flatten_cons, deleteDevices_append]

/-! ## What was granted -/

/-- The size of the address space of the device behind a pointer. -/
def spaceOf (devices : List TreeDevice) (dev : DevPtr) : Nat :=
  ((devices[dev]?).map fun found => found.mmap.addrSpaceSize).getD 0

theorem spaceOf_eq {devices : List TreeDevice} {ptr : DevPtr} {dev : TreeDevice}
    (there : devices[ptr]? = some dev) : spaceOf devices ptr = dev.mmap.addrSpaceSize := by
  rw [spaceOf, there]
  rfl

/-- The devices before anything was done with them: `fd` is -1 and `dev_mem` is
`MAP_FAILED`. -/
def unattached (world : World) : Observed (World × KernelLog) :=
  ⟨(world, []), fun _ => ⟨-1, false⟩, []⟩

theorem unattached_granted (space : DevPtr → Nat) (world : World) :
    AllGranted space (unattached world) :=
  fun _ => .nothing (by decide)

/-- A server whose devices have their system calls noted. -/
def notedTables (others : Tables (Observed (World × KernelLog))) (buses : List (List TreeDevice))
    (sys : DevPtr → MmapSys World) (memory : DevPtr → MappedMemory World) :
    Tables (Observed (World × KernelLog)) :=
  loadedTables others buses (fun dev => (sys dev).noted dev) fun dev => (memory dev).noted

/-- Servers keep the account of what was granted to their devices, when plugins do
not attach any. -/
theorem notedTables_keep {others : Tables (Observed (World × KernelLog))}
    {buses : List (List TreeDevice)} {sys : DevPtr → MmapSys World}
    {memory : DevPtr → MappedMemory World}
    (plugins : ∀ plugin, others.Registers plugin → ∀ dev args,
      Blind (fun observed : Observed (World × KernelLog) => (observed.state, observed.world.2))
        (plugin.fn dev args)) :
    (notedTables others buses sys memory).Keep (AllGranted (spaceOf buses.flatten)) := by
  have unseen : ∀ before after : Observed (World × KernelLog),
      (after.state, after.world.2) = (before.state, before.world.2) →
        AllGranted (spaceOf buses.flatten) before → AllGranted (spaceOf buses.flatten) after := by
    intro before after same granted dev
    obtain ⟨states, logs⟩ := Prod.mk.inj same
    rw [states, logs]
    exact granted dev
  constructor
  · intro bus member spec observed granted
    rw [loadedBuses_silent member]
    exact granted
  · intro ptr observed granted
    simp only [notedTables, loadedTables]
    cases there : buses.flatten[ptr]? with
    | none => exact granted
    | some dev => exact dev.mmap.attach_granted (sys ptr) (spaceOf_eq there) granted
  · intro ptr addr size observed granted
    simp only [notedTables, loadedTables]
    cases buses.flatten[ptr]? with
    | none => exact granted
    | some dev =>
        have silent := (dev.mmap.device_silent (memory ptr) ptr).read size addr observed
        exact unseen observed _ silent granted
  · intro ptr addr bytes observed granted
    simp only [notedTables, loadedTables]
    cases buses.flatten[ptr]? with
    | none => exact granted
    | some dev =>
        have silent := (dev.mmap.device_silent (memory ptr) ptr).write bytes addr observed
        exact unseen observed _ silent granted
  · intro plugin registered dev args observed granted
    exact unseen observed _ (plugins plugin registered dev args observed) granted

/-! ## The end -/

/-- Each device is given back what it was granted by its own destructor alone. -/
theorem deleteDevices_lifetime {release : DevPtr → ReleaseSys World} {devices : List TreeDevice}
    {first : Nat} {observed : Observed (World × KernelLog)}
    (granted : ∀ (k : Nat) dev, devices[k]? = some dev →
      Granted dev.mmap.addrSpaceSize (observed.state (first + k))
        (callsOf (first + k) observed.world.2)) :
    let after := deleteDevices (fun dev => (release dev).noted dev) first devices observed
    (∀ (k : Nat) dev, devices[k]? = some dev →
      Lifetime dev.mmap.addrSpaceSize (callsOf (first + k) after.world.2)) ∧
      ∀ ptr : Nat, ptr < first ∨ first + devices.length ≤ ptr →
        callsOf ptr after.world.2 = callsOf ptr observed.world.2 := by
  induction devices generalizing first observed with
  | nil => exact ⟨fun k dev none => (by cases none), fun ptr _ => rfl⟩
  | cons head rest inductionHypothesis =>
      have log := head.mmap.destroy_log (release first) first observed
      have own := granted 0 head rfl
      simp only [deleteDevices]
      generalize made : head.mmap.destroy ((release first).noted first) first observed = between
        at log
      have state : between.state = observed.state := made ▸ rfl
      have others : ∀ ptr : Nat, first ≠ ptr →
          callsOf ptr between.world.2 = callsOf ptr observed.world.2 := by
        intro ptr apart
        rw [log]
        exact callsOf_noted_other apart _ _
      obtain ⟨later, unchanged⟩ := @inductionHypothesis (first + 1) between (by
        intro k dev there
        rw [state, others _ (by omega), Nat.add_assoc, Nat.add_comm 1]
        exact granted (k + 1) dev there)
      constructor
      · intro k dev there
        cases k with
        | zero =>
            obtain rfl := Option.some.inj there
            show Lifetime _ (callsOf first _)
            rw [unchanged first (Or.inl (Nat.lt_succ_self first)), log, callsOf_noted]
            exact own.released
        | succ k =>
            have at_k := later k dev there
            rwa [Nat.add_assoc, Nat.add_comm 1] at at_k
      · intro ptr outside
        rw [List.length_cons] at outside
        rw [unchanged ptr (by omega)]
        exact others ptr (by omega)

namespace HwioServer

theorem deleteClients_world (slots : List (Option ClientPtr)) (server : HwioServer World) :
    (deleteClients slots server).2.world = server.world := by
  induction slots generalizing server with
  | nil => rfl
  | cons slot rest inductionHypothesis =>
      cases slot with
      | none => exact inductionHypothesis server
      | some client =>
          rw [deleteClients]
          cases server.heap client with
          | none => rfl
          | some record => exact inductionHypothesis _

/-- The destructor of a server does nothing with its devices. -/
theorem destroy_world (server : HwioServer World) : (destroy server).2.world = server.world := by
  have same := deleteClients_world server.clients server
  unfold destroy
  generalize deleteClients server.clients server = deleted at same
  rcases deleted with ⟨stop | done, after⟩
  · exact same
  · exact same

/-- What servers keep of the world holds however the life of one ends. -/
theorem Ending.world_kept {setup : SocketSetup} {tables : Tables World} {tx : List Byte}
    {world : World} {server : HwioServer World} {Invariant : World → Prop}
    (ending : Ending setup tables tx world server) (keep : tables.Keep Invariant)
    (holds : Invariant world) : Invariant server.world := by
  cases ending with
  | unprepared threw =>
      by_cases succeeds : setup.Succeeds
      · rw [prepareServerSocket_succeeds succeeds] at threw
        cases (Prod.mk.inj threw).1
      obtain ⟨exn, _, fails⟩ := prepareServerSocket_fails succeeds tables tx world
      rw [fails] at threw
      obtain rfl := (Prod.mk.inj threw).2
      exact holds
  | stopped ready served =>
      obtain ⟨positive, rfl⟩ := prepareServerSocket_returns ready
      exact served.reached.world_kept keep holds
  | @threw _ before _ sys _ ready served threw =>
      obtain ⟨positive, rfl⟩ := prepareServerSocket_returns ready
      have last := Reached.pass served.reached sys
      rw [threw] at last
      exact last.world_kept keep holds

end HwioServer

/-- However the life of a server with loaded buses ends, once it and its buses are
deleted the kernel did for each device one of these, and nothing else: it opened no
file; it opened the file and did not map it, and closed it; it opened and mapped the
file, and unmapped and closed it; or it opened the file as descriptor 0, which was
never closed. -/
theorem devices_released {others : Tables (Observed (World × KernelLog))}
    {buses : List (List TreeDevice)} {sys : DevPtr → MmapSys World}
    {release : DevPtr → ReleaseSys World} {memory : DevPtr → MappedMemory World}
    (plugins : ∀ plugin, others.Registers plugin → ∀ dev args,
      Blind (fun observed : Observed (World × KernelLog) => (observed.state, observed.world.2))
        (plugin.fn dev args))
    {setup : HwioServer.SocketSetup} {tx : List Byte} {world : World}
    {server : HwioServer (Observed (World × KernelLog))}
    (ending : HwioServer.Ending setup (notedTables others buses sys memory) tx (unattached world)
      server) :
    let left := deleteBuses (fun dev => (release dev).noted dev) 0 buses
      (HwioServer.destroy server).2.world
    ∀ ptr dev, buses.flatten[ptr]? = some dev →
      Lifetime dev.mmap.addrSpaceSize (callsOf ptr left.world.2) := by
  intro left ptr dev there
  have granted := ending.world_kept (notedTables_keep plugins)
    (unattached_granted (spaceOf buses.flatten) world)
  obtain ⟨each, _⟩ := @deleteDevices_lifetime _ release buses.flatten 0 server.world (by
    intro k found at_k
    rw [Nat.zero_add, ← spaceOf_eq at_k]
    exact granted k)
  have own := each ptr dev there
  rw [Nat.zero_add] at own
  show Lifetime _ (callsOf ptr
    (deleteBuses _ 0 buses (HwioServer.destroy server).2.world).world.2)
  rw [deleteBuses_eq, HwioServer.destroy_world]
  exact own

namespace HwioServer

/-- A device of any vendor, type and name. -/
def anyDevice : TreeDevice where
  name := []
  spec := [⟨[], [], [], ⟨0, 0, 0⟩⟩]
  mmap := HwioDeviceMmap.new 4096 0x40000000 4096 (text "/dev/mem")

def quietMemory : MappedMemory Unit :=
  ⟨fun _ world => (0, world), fun _ world => (0, world), fun _ _ world => world,
    fun _ _ world => world⟩

def anyTables : Tables (Observed (Unit × KernelLog)) :=
  notedTables ⟨fun _ => Hwio.noDevice, [], ∅, [], []⟩ [[anyDevice]]
    (fun _ => ⟨fun world => ((7, []), world), fun _ _ _ world => (true, world)⟩)
    fun _ => quietMemory

/-- What is left when a server whose client looked for all devices is deleted. -/
def leftByLookup : Observed (Unit × KernelLog) :=
  deleteBuses (fun dev => ReleaseSys.noted ⟨fun _ world => world, fun _ world => world⟩ dev) 0
    [[anyDevice]] (destroy (loneRun anyTables [] (unattached ()) queryFrame)).2.world

end HwioServer

open HwioServer in
theorem found_device_released :
    callsOf 0 leftByLookup.world.2 =
        [.opened 7, .mapped 7 8192, .unmapped 8192, .closed 7] ∧
      Lifetime 8192 (callsOf 0 leftByLookup.world.2) := by
  refine ⟨by decide +kernel, ?_⟩
  have ready := @prepareServerSocket_succeeds _ goodSetup
    ⟨by decide, by decide, by decide, by decide, by decide⟩ anyTables [] (unattached ())
  have connected := (Served.start : Served (prepared anyTables 3 [] (unattached ())) _).next
    (loneClient queryFrame) (fun _ _ => rfl) (by decide +kernel)
  have served : Served (prepared anyTables 3 [] (unattached ()))
      (loneRun anyTables [] (unattached ()) queryFrame) :=
    connected.next (loneClient queryFrame) (fun _ _ => rfl) (by decide +kernel)
  have released := @devices_released Unit _ [[anyDevice]] _
    (fun _ => ⟨fun _ world => world, fun _ world => world⟩) _
    (fun plugin registered => by
      rcases registered with ⟨name, found⟩ | member
      · cases found
      · cases member)
    _ _ _ _ (.stopped ready served)
  exact released 0 anyDevice rfl

end Hwio
