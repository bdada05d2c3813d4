import Hwio.Bus.Served
import Hwio.Client.Separation
import Hwio.Server.Traversal

/-!
Contract: clients that share a memory through their devices.

Owns when the devices of a server are regions of one memory, that those of loaded
buses are, the bytes that the calls of an order put there, and that what a client
reads was put there last, whichever client did it.

Does not own what else the devices do.
-/

namespace Hwio

open Library HwioServer

variable {World : Type}

/-- All devices are regions of one memory, which lookups and plugins leave alone. -/
structure Tables.Shares (tables : Tables World) (cells : World → Cells)
    (base size : DevPtr → Nat) : Prop where
  device : ∀ dev, (tables.device dev).Region cells (base dev) (size dev)
  find : ∀ bus ∈ tables.buses, ∀ spec, Blind cells (bus.findDevices spec)
  plugin : ∀ plugin, tables.Registers plugin → ∀ dev args, Blind cells (plugin.fn dev args)

/-- The devices of loaded buses are regions of the memory that their mappings
show. -/
theorem loadedTables_shares {others : Tables (Observed World)} {buses : List (List TreeDevice)}
    {sys : DevPtr → MmapSys World} {memory : DevPtr → MappedMemory World} {cells : World → Cells}
    {origin : Text → Nat} {pageSize : UInt32} (page : HwioDeviceMmap.IsPageSize pageSize)
    (loaded : ∀ bus ∈ buses, LoadedBus pageSize bus)
    (opens : ∀ ptr world, cells ((sys ptr).openFile world).2 = cells world)
    (maps : ∀ ptr fd length addr world,
      cells ((sys ptr).mmap fd length addr world).2 = cells world)
    (mapped : ∀ ptr dev, buses.flatten[ptr]? = some dev →
      (memory ptr).Shows cells (origin dev.mmap.memFileName + dev.mmap.pageAddr.toNat)
        dev.mmap.addrSpaceSize)
    (plugins : ∀ plugin, others.Registers plugin → ∀ dev args,
      Blind (fun observed : Observed World => cells observed.world) (plugin.fn dev args)) :
    (loadedTables others buses sys memory).Shares (fun observed => cells observed.world)
      (placeOf origin buses.flatten) (sizeOfDev buses.flatten) where
  device ptr := by
    cases there : buses.flatten[ptr]? with
    | none =>
        simp only [loadedTables, placeOf, sizeOfDev, there, Option.map_none, Option.getD_none]
        exact noDevice_region _ _
    | some dev =>
        simp only [loadedTables, placeOf, sizeOfDev, there, Option.map_some, Option.getD_some]
        obtain ⟨bus, listed, member⟩ := List.mem_flatten.mp (List.mem_of_getElem? there)
        obtain ⟨base, size, file, made⟩ := (loaded bus listed).constructed dev member
        have place : dev.place origin = origin dev.mmap.memFileName + dev.mmap.pageAddr.toNat +
            dev.mmap.pageOffset.toNat := by
          rw [TreeDevice.place, made, Nat.add_assoc, HwioDeviceMmap.new_place page]
          rfl
        have covered : dev.mmap.pageOffset.toNat + dev.mmap.onBusSize.toNat ≤
            dev.mmap.addrSpaceSize := by
          rw [made]
          exact HwioDeviceMmap.new_covered page file
        rw [place]
        exact HwioDeviceMmap.served_region (mapped ptr dev there) covered (opens ptr) (maps ptr) ptr
  find bus member spec world :=
    congrArg (fun observed => cells observed.world) (loadedBuses_silent member spec world)
  plugin := plugins

namespace Hub

/-- An access lies inside of the device that it gets to. -/
def Inside (size : DevPtr → Nat) (hub : Hub World) (entry : ClientPtr × Op) : Prop :=
  match entry.2 with
  | .read id offset n =>
      ∀ dev, hub.device entry.1 id = some dev → offset.toNat + n ≤ size dev
  | .write id offset data =>
      ∀ dev, hub.device entry.1 id = some dev → offset.toNat + data.length ≤ size dev
  | _ => True

/-- What a call puts into the memory: the data of a write, at the place of its
device. -/
def patchesOf (base : DevPtr → Nat) (hub : Hub World) (entry : ClientPtr × Op) : List Patch :=
  match entry.2 with
  | .write id offset data =>
      if maxDevices ≤ id.toNat then []
      else
        match hub.device entry.1 id with
        | none => []
        | some dev => [⟨base dev + offset.toNat, data⟩]
  | _ => []

/-- What the calls of an order put into the memory, one after the other. -/
def patchesIn (tables : Tables World) (base : DevPtr → Nat) :
    List (ClientPtr × Op) → Hub World → List Patch
  | [], _ => []
  | entry :: rest, hub =>
      hub.patchesOf base entry ++ patchesIn tables base rest (hub.perform tables entry).2

section

variable {tables : Tables World} {cells : World → Cells} {base size : DevPtr → Nat}
  (shares : tables.Shares cells base size) (hub : Hub World)

/-! ## One call -/

theorem onDevice_keeps {owner : ClientPtr} {id : UInt16} {act : DevPtr → Upshot × Hub World}
    (each : ∀ dev, hub.device owner id = some dev → cells (act dev).2.world = cells hub.world) :
    cells (hub.onDevice owner id act).2.world = cells hub.world := by
  unfold onDevice
  cases resolved : hub.device owner id with
  | none => rfl
  | some dev => exact each dev resolved

include shares

theorem lookUp_keeps (owner : ClientPtr) (spec : List HwioCompSpec) :
    cells (hub.lookUp tables owner spec).2.world = cells hub.world := by
  have kept := findOnAll_blind (fun bus member => shares.find bus member spec) hub.world
  unfold lookUp
  rcases finding : findOnAll spec tables.buses hub.world with ⟨found, world⟩
  rw [finding] at kept
  cases found with
  | none => exact kept
  | some found =>
      exact (hold_blind (fun dev _ => (shares.device dev).attach) (hub.held owner) world).trans kept

/-- A read inside of a device gives the bytes at its place. -/
theorem perform_read {owner : ClientPtr} {id : UInt16} {offset : UInt32} {n : Nat}
    (inside : hub.Inside size (owner, .read id offset n)) {dev : DevPtr}
    (resolved : hub.device owner id = some dev) :
    (hub.perform tables (owner, .read id offset n)).1 =
        .returned (.bytes ((cells hub.world).slice (base dev + offset.toNat) n)) ∧
      cells (hub.perform tables (owner, .read id offset n)).2.world = cells hub.world := by
  obtain ⟨given, kept⟩ := (shares.device dev).read offset n hub.world (inside dev resolved)
  simp only [perform, onDevice, resolved, acting]
  rw [given]
  exact ⟨rfl, kept⟩

/-- A call inside of its device leaves in the memory what it puts there. -/
theorem perform_cells (entry : ClientPtr × Op) (inside : hub.Inside size entry) :
    cells (hub.perform tables entry).2.world = (cells hub.world).patched (hub.patchesOf base entry) := by
  obtain ⟨owner, op⟩ := entry
  cases op with
  | ping => rfl
  | findDevices spec => exact hub.lookUp_keeps shares owner spec
  | read id offset n =>
      apply hub.onDevice_keeps
      intro dev resolved
      exact ((shares.device dev).read offset n hub.world (inside dev resolved)).2
  | write id offset data =>
      by_cases limit : maxDevices ≤ id.toNat
      · simp only [perform, patchesOf, if_pos limit]
        rfl
      simp only [perform, patchesOf, if_neg limit, onDevice]
      cases resolved : hub.device owner id with
      | none => rfl
      | some dev =>
          exact ((shares.device dev).write offset data hub.world (inside dev resolved)).2
  | remoteCall id fnName args retSize =>
      apply hub.onDevice_keeps
      intro dev _
      cases found : tables.findPlugin fnName with
      | none => rfl
      | some plugin => exact shares.plugin plugin (Or.inl ⟨fnName, found⟩) dev args hub.world
  | remoteCallFast id fnId args retSize =>
      apply hub.onDevice_keeps
      intro dev _
      cases found : tables.pluginsFast[fnId.toNat]? with
      | none => rfl
      | some plugin =>
          exact shares.plugin plugin (Or.inr (List.mem_of_getElem? found)) dev args hub.world
  | getRpcFnId id fnName => exact hub.onDevice_keeps fun dev _ => rfl
  | isRpcAvailable id fnName => exact hub.onDevice_keeps fun dev _ => rfl

/-! ## All calls of an order -/

/-- All accesses of an order lie inside of the devices that they get to. -/
def AllInside (tables : Tables World) (size : DevPtr → Nat) (order : List (ClientPtr × Op))
    (hub : Hub World) : Prop :=
  ∀ front entry back, order = front ++ entry :: back →
    (runAll (perform tables) front hub).2.Inside size entry

omit shares in
theorem allInside_nil : AllInside tables size [] hub := by
  intro front entry back split
  cases front with
  | nil => cases split
  | cons first front => cases split

omit shares in
theorem allInside_cons {entry : ClientPtr × Op} {rest : List (ClientPtr × Op)} :
    AllInside tables size (entry :: rest) hub ↔
      hub.Inside size entry ∧ AllInside tables size rest (hub.perform tables entry).2 := by
  constructor
  · intro inside
    exact ⟨inside [] entry rest rfl,
      fun front other back split => inside (entry :: front) other back (congrArg _ split)⟩
  · rintro ⟨first, later⟩ front other back split
    cases front with
    | nil =>
        cases split
        exact first
    | cons head front =>
        cases split
        exact later front other back rfl

omit shares in
theorem AllInside.part {front back : List (ClientPtr × Op)}
    (inside : AllInside tables size (front ++ back) hub) : AllInside tables size front hub := by
  rintro earlier entry later rfl
  exact inside earlier entry (later ++ back) (List.append_assoc ..)

/-- The memory after some calls holds what they put there. -/
theorem runAll_cells {order : List (ClientPtr × Op)} {hub : Hub World}
    (inside : AllInside tables size order hub) :
    cells (runAll (perform tables) order hub).2.world =
      (cells hub.world).patched (patchesIn tables base order hub) := by
  induction order generalizing hub with
  | nil => rfl
  | cons entry rest inductionHypothesis =>
      obtain ⟨here, later⟩ := (allInside_cons hub).mp inside
      have first := hub.perform_cells shares entry here
      rw [runAll, inductionHypothesis later, first, patchesIn, Cells.patched_append]

end

end Hub

/-- A read that returned stands in the order, and gave what was put there last; it
failed when its client holds no device of the id. -/
theorem System.read_placed {tables : Tables World} {cells : World → Cells}
    {base size : DevPtr → Nat} (shares : tables.Shares cells base size) {master : Fd}
    {tx : List Byte} {world : World} {buffers : ClientPtr → List Byte × List Byte}
    {programs : ClientPtr → List Op} {system : System World}
    (steps : System.Steps (System.begin tables master tx world buffers programs) system)
    (intact : ∀ owner, ∀ op ∈ programs owner, op.Intact tables)
    (inside : Hub.AllInside tables size (system.order programs) (Hub.start world))
    {owner : ClientPtr} {k : Nat} {call : Done} {id : UInt16} {offset : UInt32} {n : Nat}
    (done : (system.clients owner).done[k]? = some call) (reads : call.op = .read id offset n)
    (unfailed : system.Unfailed tables world programs owner k) :
    ∃ front back, system.order programs = front ++ (owner, .read id offset n) :: back ∧
      (callsOf owner front).length = k ∧
      let held := (runAll (Hub.perform tables) front (Hub.start world)).2.device owner id
      (held = none → ∃ exn, call.result = .error exn) ∧
        ∀ dev, held = some dev → ∃ bytes, call.result = .ok (.bytes bytes) ∧
          bytes.length = n ∧ ∀ i byte, bytes[i]? = some byte →
            (cells world).LastPut (Hub.patchesIn tables base front (Hub.start world))
              (base dev + offset.toNat + i) byte := by
  have waits : call.op.waits = true := by
    rw [reads]
    rfl
  obtain ⟨upshot, answer, gives⟩ := System.awaited_gives steps intact done waits unfailed
  obtain ⟨front, back, ordered, length, same⟩ := System.answer_placed steps done answer
  rw [reads] at ordered same
  refine ⟨front, back, ordered, length, fun held => ?_, fun dev held => ?_⟩
  · simp only [Hub.perform, Hub.onDevice, held] at same
    rw [same] at gives
    exact gives
  · rw [ordered] at inside
    have memory := Hub.runAll_cells shares inside.part
    obtain ⟨returned, _⟩ := Hub.perform_read shares _ (inside front _ back rfl) held
    rw [same, returned] at gives
    refine ⟨_, gives, Cells.slice_length _ _ _, fun i byte found => ?_⟩
    rw [Cells.getElem?_slice found, memory]
    exact Cells.lastPut_patched _ _ _

/-- In every state of every run of a server and any number of clients, whose
devices are regions of one memory and whose accesses lie inside of them: the
memory holds what the writes put there, in the order in which the server got to
them; and a read that returned, with no call before it on its connection that
failed, gave for each of its bytes what was put there last in this order before
the read, by whichever client and through whichever device, or what was there from
the start; it failed when its client holds no device of the id. -/
theorem memory_shared {tables : Tables World} {cells : World → Cells} {base size : DevPtr → Nat}
    (shares : tables.Shares cells base size) {master : Fd} {tx : List Byte} {world : World}
    {buffers : ClientPtr → List Byte × List Byte} {programs : ClientPtr → List Op}
    {system : System World}
    (steps : System.Steps (System.begin tables master tx world buffers programs) system)
    (intact : ∀ owner, ∀ op ∈ programs owner, op.Intact tables)
    (inside : Hub.AllInside tables size (system.order programs) (Hub.start world)) :
    cells system.server.world = (cells world).patched
        (Hub.patchesIn tables base (system.order programs) (Hub.start world)) ∧
      ∀ (owner : ClientPtr) (k : Nat) call id offset n,
        (system.clients owner).done[k]? = some call → call.op = .read id offset n →
        system.Unfailed tables world programs owner k →
          ∃ front back, system.order programs = front ++ (owner, .read id offset n) :: back ∧
            (callsOf owner front).length = k ∧
            let held := (runAll (Hub.perform tables) front (Hub.start world)).2.device owner id
            (held = none → ∃ exn, call.result = .error exn) ∧
              ∀ dev, held = some dev → ∃ bytes, call.result = .ok (.bytes bytes) ∧
                bytes.length = n ∧ ∀ i byte, bytes[i]? = some byte →
                  (cells world).LastPut (Hub.patchesIn tables base front (Hub.start world))
                    (base dev + offset.toNat + i) byte := by
  constructor
  · have tracked := System.tracks steps intact List.prefix_rfl
    rw [show system.server.world = system.server.service.world from rfl,
      (System.server_reached steps).service_prepared, tracked.world]
    exact Hub.runAll_cells shares inside
  · intro owner k call id offset n done reads unfailed
    exact System.read_placed shares steps intact inside done reads unfailed

/-! ## A page of memory -/

/-- A mapping of the bytes from `page` on. -/
def mappedCells (page : Nat) : MappedMemory Cells where
  load8 position cells := (cells (page + position), cells)
  load32 position cells := (loadU32 (cells.slice (page + position) 4) 0, cells)
  store8 position value cells := cells.put (page + position) [value]
  store32 position value cells := cells.put (page + position) (u32Bytes value)

theorem mappedCells_shows (page space : Nat) : (mappedCells page).Shows id page space where
  load8 position cells _ := ⟨rfl, rfl⟩
  load32 position cells _ := by
    refine ⟨?_, rfl⟩
    show u32Bytes (loadU32 (cells.slice (page + position) 4) 0) = _
    rw [u32Bytes_loadU32]
    have whole := load_whole (cells.slice (page + position) 4)
    rw [Cells.slice_length] at whole
    exact whole
  store8 _ _ _ _ := rfl
  store32 _ _ _ _ := rfl

/-- A DMA engine with a page of registers. -/
def dmaPage : TreeDevice where
  name := []
  spec := [⟨text "dma", text "xlnx", text "axi-dma", ⟨1, 2, -1⟩⟩]
  mmap := HwioDeviceMmap.new 4096 0x40000000 4096 (text "/dev/mem")

/-- No plugin is installed. -/
def noPlugins : Tables World := ⟨fun _ => noDevice, [], ∅, [], []⟩

/-- A server with the bus of this page, all of whose files can be mapped. -/
def cellTables : Tables (Observed Cells) :=
  loadedTables noPlugins [[dmaPage]]
    (fun _ => ⟨fun world => ((3, []), world), fun _ _ _ world => (true, world)⟩)
    (fun _ => mappedCells 0x40000000)

theorem dmaPage_loaded : loadDevices 4096 (oneEntry "1000" "0") = .ok [dmaPage] := by
  have result : (loadDevices 4096 (oneEntry "1000" "0")).toOption = some [dmaPage] := by
    decide +kernel
  cases loaded : loadDevices 4096 (oneEntry "1000" "0") with
  | error failure =>
      rw [loaded] at result
      cases result
  | ok devices =>
      rw [loaded] at result
      exact congrArg Except.ok (Option.some.inj result)

theorem cellTables_shares : cellTables.Shares (fun observed => observed.world)
    (placeOf (fun _ => 0) [dmaPage]) (sizeOfDev [dmaPage]) := by
  have page : HwioDeviceMmap.IsPageSize 4096 := ⟨12, by decide, by decide, rfl⟩
  apply @loadedTables_shares Cells noPlugins [[dmaPage]] _ _ id (fun _ => 0) 4096 page
  · intro bus member
    obtain rfl := List.mem_singleton.mp member
    exact .json dmaPage_loaded
  · exact fun ptr world => rfl
  · exact fun ptr fd length addr world => rfl
  · intro ptr dev there
    obtain rfl := List.mem_singleton.mp (List.mem_of_getElem? there)
    exact mappedCells_shows 0x40000000 _
  · rintro plugin (⟨name, found⟩ | member)
    · cases found
    · cases member

/-- Any version of the engine. -/
def axiDma : HwioCompSpec := ⟨[], text "xlnx", text "axi-dma", .na⟩

theorem axiDma_carried : Carried [axiDma] where
  some := nofun
  few := by decide
  encodable := by
    intro item member
    obtain rfl := List.mem_singleton.mp member
    exact ⟨⟨List.not_mem_nil, by decide⟩, ⟨by decide, by decide⟩, ⟨by decide, by decide⟩⟩

/-- The query for it. -/
def axiDmaQuery : List Byte := (Op.findDevices [axiDma]).frame.bytes

/-- One client writes a byte, another one reads it. -/
def writerAndReader (owner : ClientPtr) : List Op :=
  if owner = 0 then [.findDevices [axiDma], .write 0 8 [7]]
  else if owner = 1 then [.findDevices [axiDma], .read 0 8 1]
  else []

/-- The memory is zero, and no device is open. -/
def blankCells : Observed Cells := ⟨fun _ => 0, fun _ => ⟨-1, false⟩, []⟩

/-- The writer is done. -/
def written : Joint (Observed Cells) where
  server := (poolClientMsgs (loneClient (Op.write 0 8 [7]).frame.bytes)
    (loneRun cellTables [] blankCells axiDmaQuery)).2
  running := true
  client :=
    (((Client.connect [] [] (writerAndReader 0)).waiting (.findDevices [axiDma])
      [.write 0 8 [7]]).took (.findDevices [axiDma]) ⟨7, [0, 0], page_id_fits⟩).told
        (.write 0 8 [7]) []

theorem written_reached : Joint.Reached (prepared cellTables 3 [] blankCells) 0
    (Client.connect [] [] (writerAndReader 0)) written := by
  have asked := (Joint.Reached.start : Joint.Reached (prepared cellTables 3 [] blankCells) 0
    (Client.connect [] [] (writerAndReader 0)) _).waits rfl rfl trivial (by decide +kernel) rfl
  have served := asked.served axiDmaQuery (by decide +kernel)
    (by decide +kernel) (by decide +kernel) (by decide +kernel)
  have found := served.takes rfl ⟨7, [0, 0], by decide⟩ (by decide) (by decide +kernel)
  have told := found.tells rfl rfl (by decide) (by decide +kernel) rfl
  exact told.passes (loneClient (Op.write 0 8 [7]).frame.bytes)
    (by decide +kernel) (by decide +kernel)

/-- The reader is done too. -/
def readAfter : Joint (Observed Cells) where
  server := (poolClientMsgs (loneClient (Op.read 0 8 1).frame.bytes)
    (poolClientMsgs (loneClient axiDmaQuery) (poolClientMsgs joiningClient written.server).2).2).2
  running := true
  client :=
    ((((Client.connect [] [] (writerAndReader 1)).waiting (.findDevices [axiDma])
      [.read 0 8 1]).took (.findDevices [axiDma]) ⟨7, [0, 0], page_id_fits⟩).waiting
        (.read 0 8 1) []).took (.read 0 8 1) ⟨2, [7], page_byte_fits⟩

theorem readAfter_reached : Joint.Reached written.server 1
    (Client.connect [] [] (writerAndReader 1)) readAfter := by
  have asked := (Joint.Reached.start : Joint.Reached written.server 1
    (Client.connect [] [] (writerAndReader 1)) _).waits rfl rfl trivial (by decide +kernel) rfl
  have joined := asked.passes joiningClient (by decide +kernel) (by decide +kernel)
  have served := joined.passes (loneClient axiDmaQuery) (by decide +kernel) (by decide +kernel)
  have found := served.takes rfl ⟨7, [0, 0], by decide⟩ (by decide) (by decide +kernel)
  have asking := found.waits rfl rfl (by decide) (by decide +kernel) rfl
  have read := asking.passes (loneClient (Op.read 0 8 1).frame.bytes)
    (by decide +kernel) (by decide +kernel)
  exact read.takes rfl ⟨2, [7], by decide⟩ (by decide) (by decide +kernel)

/-- The server and its clients when the writer is done. -/
def writtenOnly : System (Observed Cells) :=
  ⟨written.server, written.running, Function.update
    (System.begin cellTables 3 [] blankCells (fun _ => ([], [])) writerAndReader).clients 0
      written.client⟩

/-- The server and its clients when both are done. -/
def writtenAndRead : System (Observed Cells) :=
  ⟨readAfter.server, readAfter.running, Function.update writtenOnly.clients 1 readAfter.client⟩

theorem writtenAndRead_steps :
    System.Steps (System.begin cellTables 3 [] blankCells (fun _ => ([], [])) writerAndReader)
      writtenAndRead := by
  have first : System.Steps (System.begin cellTables 3 [] blankCells (fun _ => ([], []))
      writerAndReader) writtenOnly := by
    apply Joint.Reached.steps written_reached
    intro other apart
    exact receivedBy_of_known [0] (by decide +kernel) (by simp [apart])
  have connected : writtenOnly.clients 1 = Client.connect [] [] (writerAndReader 1) := by
    simp only [writtenOnly]
    rw [Function.update_of_ne (by decide)]
    rfl
  have server : writtenOnly.server = written.server := by
    simp only [writtenOnly]
  have reached : Joint.Reached writtenOnly.server 1 (writtenOnly.clients 1) readAfter := by
    rw [connected, server]
    exact readAfter_reached
  apply first.trans
  apply reached.stepsFrom rfl
  intro other apart
  by_cases writer : other = 0
  · subst writer
    show receivedBy 0 readAfter.server.trace <+: written.client.sent
    decide +kernel
  · rw [receivedBy_of_known [0, 1] (by decide +kernel) (by simp [writer, apart])]
    exact List.nil_prefix

theorem writerAndReader_intact (owner : ClientPtr) :
    ∀ op ∈ writerAndReader owner, op.Intact cellTables := by
  intro op member
  unfold writerAndReader at member
  split at member
  · rcases List.mem_cons.mp member with rfl | member
    · exact axiDma_carried
    · obtain rfl := List.mem_singleton.mp member
      trivial
  · split at member
    · rcases List.mem_cons.mp member with rfl | member
      · exact axiDma_carried
      · obtain rfl := List.mem_singleton.mp member
        exact (by decide : sizeofHeader + 1 ≤ bufferSize)
    · cases member

/-- The calls before the read. -/
def beforeRead : List (ClientPtr × Op) :=
  [(0, .findDevices [axiDma]), (0, .write 0 8 [7]), (1, .findDevices [axiDma])]

theorem writtenAndRead_order :
    writtenAndRead.order writerAndReader = beforeRead ++ [(1, .read 0 8 1)] := by
  decide +kernel

theorem writtenAndRead_inside : Hub.AllInside cellTables (sizeOfDev [dmaPage])
    (writtenAndRead.order writerAndReader) (Hub.start blankCells) := by
  rw [writtenAndRead_order]
  refine (Hub.allInside_cons _).mpr ⟨trivial, (Hub.allInside_cons _).mpr ⟨?_,
    (Hub.allInside_cons _).mpr ⟨trivial, (Hub.allInside_cons _).mpr ⟨?_, Hub.allInside_nil _⟩⟩⟩⟩
  · intro dev held
    have first : some 0 = some dev := Eq.trans (by decide +kernel) held
    obtain rfl := Option.some.inj first
    decide
  · intro dev held
    have first : some 0 = some dev := Eq.trans (by decide +kernel) held
    obtain rfl := Option.some.inj first
    decide

/-- No call of the reader fails. -/
theorem writtenAndRead_unfailed (k : Nat) :
    writtenAndRead.Unfailed cellTables blankCells writerAndReader 1 k := by
  have answers : writtenAndRead.answers cellTables blankCells writerAndReader 1 =
      [.returned (.devices [0]), .returned (.bytes [7])] := by
    decide +kernel
  intro j upshot _ found
  rw [answers] at found
  have member := List.mem_of_getElem? found
  simp only [List.mem_cons, List.not_mem_nil, or_false] at member
  rcases member with rfl | rfl
  · exact ⟨_, rfl⟩
  · exact ⟨_, rfl⟩

/-- The read stands behind these calls. -/
theorem read_front {front back : List (ClientPtr × Op)}
    (ordered : writtenAndRead.order writerAndReader = front ++ (1, .read 0 8 1) :: back)
    (length : (callsOf 1 front).length = 1) : beforeRead = front :=
  front_unique (writtenAndRead_order.symm.trans ordered) (Eq.trans (by decide) length.symm)

/-- What was put last at the register before it is read. -/
theorem register_written {byte : Byte}
    (last : blankCells.world.LastPut (Hub.patchesIn cellTables (placeOf (fun _ => 0) [dmaPage])
      beforeRead (Hub.start blankCells)) 0x40000008 byte) : byte = 7 :=
  (Cells.lastPut_iff.mp last).trans (by decide +kernel)

/-- The byte that the one client wrote is what the other one reads. -/
theorem written_byte_read : ∃ call, (writtenAndRead.clients 1).done[1]? = some call ∧
    call.result = .ok (.bytes [7]) := by
  obtain ⟨_, reads⟩ := memory_shared cellTables_shares writtenAndRead_steps writerAndReader_intact
    writtenAndRead_inside
  obtain ⟨call, done⟩ : ∃ call, (writtenAndRead.clients 1).done[1]? = some call := ⟨_, rfl⟩
  have asked : call.op = .read 0 8 1 := by
    obtain rfl := Option.some.inj (show some _ = some call from done)
    rfl
  obtain ⟨front, back, ordered, length, _, given⟩ :=
    reads 1 1 call 0 8 1 done asked (writtenAndRead_unfailed 1)
  obtain rfl := read_front ordered length
  obtain ⟨bytes, result, one, last⟩ := given 0 (by decide +kernel)
  obtain ⟨byte, rfl⟩ := List.length_eq_one_iff.mp one
  obtain rfl := register_written (last 0 byte rfl)
  exact ⟨call, done, result⟩

end Hwio
