import Hwio.Device.Mmap
import Hwio.Server.Rejections

/-!
Contract: READ and WRITE requests and the address window of a mapped device.

Owns the requests that get to a device, the accesses their handling makes on
its mapping, and when these stay in the window.

Does not own calls of plugins.
-/

namespace Hwio

open Library

variable {World : Type}

/-! ## Requests that get to a device -/

/-- A READ or WRITE request that gets to a device, with its address and its
number of bytes. -/
structure Reaches (header : HwioPacketHeader) (ctx : Ctx World) (dev : DevPtr) (addr : UInt32)
    (count : Nat) : Prop where
  command :
    (HwioCmd.ofCode header.command = some .read ∧ header.bodyLen.toNat = sizeofRdReq) ∨
    (HwioCmd.ofCode header.command = some .write ∧ sizeofWrReq ≤ header.bodyLen.toNat ∧
      (loadU16 ctx.rx 0).toNat < maxDevices)
  device : clientGetDev ctx.devices (loadU16 ctx.rx 0) = some dev
  addr : loadU32 ctx.rx 2 = addr
  count : (loadU16 ctx.rx 6).toNat = count

/-- An access lies in the window of the device. -/
def InWindow (mmap : HwioDeviceMmap) (access : Access) : Prop :=
  mmap.pageOffset.toNat ≤ access.span.1 ∧
    access.span.1 + access.span.2 ≤ mmap.pageOffset.toNat + mmap.onBusSize.toNat

instance (mmap : HwioDeviceMmap) (access : Access) : Decidable (InWindow mmap access) :=
  inferInstanceAs (Decidable (_ ∧ _))

/-- The accesses made since a state. -/
def accessesSince (before after : Observed World) : List (DevPtr × Access) :=
  after.accesses.drop before.accesses.length

/-- Every access of a request lies in the window, and a request that does not
fit is answered with an error and makes none. -/
def KeepsWindow (mmap : HwioDeviceMmap) (addr : UInt32) (count : Nat) (before : Observed World)
    (answer : Handled (Observed World)) : Prop :=
  (∀ entry ∈ accessesSince before answer.2.world, InWindow mmap entry.2) ∧
    (¬ IhwioDev.Fits mmap.onBusSize addr count →
      (∃ code, errorCode (replyBytes answer) = some code) ∧
        accessesSince before answer.2.world = [])

/-! ## The accesses of a request -/

theorem accessesSince_of_accessed {mmap : HwioDeviceMmap} {dev : DevPtr}
    {spans : List (UInt32 × Nat)} {before after : Observed World}
    (accessed : mmap.Accessed dev spans before after) :
    ((∀ entry ∈ accessesSince before after, InWindow mmap entry.2) ↔
        ∀ span ∈ spans, span.1.toNat + span.2 ≤ mmap.onBusSize.toNat) ∧
      (accessesSince before after = [] ↔ spans = []) := by
  obtain ⟨accesses, appended, visited⟩ := accessed
  have since : accessesSince before after = accesses.map (dev, ·) := by
    rw [accessesSince, appended, List.drop_left]
  have inside : ∀ span : UInt32 × Nat,
      (mmap.pageOffset.toNat ≤ mmap.position span.1 ∧
        mmap.position span.1 + span.2 ≤ mmap.pageOffset.toNat + mmap.onBusSize.toNat) ↔
        span.1.toNat + span.2 ≤ mmap.onBusSize.toNat := by
    intro span
    unfold HwioDeviceMmap.position
    omega
  rw [since]
  constructor
  · calc (∀ entry ∈ accesses.map (dev, ·), InWindow mmap entry.2)
        ↔ ∀ place ∈ accesses.map Access.span, mmap.pageOffset.toNat ≤ place.1 ∧
            place.1 + place.2 ≤ mmap.pageOffset.toNat + mmap.onBusSize.toNat := by
          simp only [List.forall_mem_map]
          rfl
      _ ↔ ∀ span ∈ spans, span.1.toNat + span.2 ≤ mmap.onBusSize.toNat := by
          rw [visited]
          simp only [List.forall_mem_map, inside]
  · rw [List.map_eq_nil_iff, ← @List.map_eq_nil_iff _ _ Access.span, visited, List.map_eq_nil_iff]

/-- A request that gets to a mapped device visits the spans of its loop, and is
never answered with an error. -/
theorem Reaches.accessed {tables : Tables (Observed World)} {dev : DevPtr}
    {mmap : HwioDeviceMmap} {sys : MmapSys World} {memory : MappedMemory World}
    (isMmap : tables.device dev = mmap.served sys memory dev) {header : HwioPacketHeader}
    {ctx : Ctx (Observed World)} {addr : UInt32} {count : Nat}
    (reaches : Reaches header ctx dev addr count) :
    mmap.Accessed dev (IhwioDev.spans count addr) ctx.world (handleMsg tables header ctx).2.world ∧
      errorCode (replyBytes (handleMsg tables header ctx)) = none := by
  rcases reaches.command with ⟨read, size⟩ | ⟨write, size, below⟩
  · have handled : handleMsg tables header ctx = handleRead tables header ctx := by
      simp only [handleMsg, read]
    rw [handled]
    unfold handleRead
    rw [if_neg (not_not.mpr size)]
    simp only [reaches.device, reaches.addr, reaches.count, isMmap, HwioDeviceMmap.served]
    refine ⟨HwioDeviceMmap.read_accessed mmap memory dev count addr ctx.world, ?_⟩
    apply errorCode_done
    right
    rw [replyHeader_store _ _ (Nat.le_refl _), command_replied]
    decide
  · have handled : handleMsg tables header ctx = handleWrite tables header ctx := by
      simp only [handleMsg, write]
    rw [handled]
    unfold handleWrite
    rw [if_neg (Nat.not_lt.mpr size)]
    simp only [reaches.device, reaches.addr, reaches.count, isMmap, HwioDeviceMmap.served,
      if_neg (Nat.not_le.mpr below)]
    refine ⟨?_, errorCode_done (Or.inl rfl)⟩
    have accessed := HwioDeviceMmap.write_accessed mmap memory dev (load ctx.rx sizeofWrReq count)
      addr ctx.world
    rw [load_length] at accessed
    exact accessed

theorem spans_ne_nil {size addr : UInt32} {count : Nat} (outside : ¬ IhwioDev.Fits size addr count) :
    IhwioDev.spans count addr ≠ [] := by
  intro none
  refine outside ((IhwioDev.spans_inside_iff size addr count).mp ?_)
  rw [none]
  simp

theorem keepsWindow_iff {tables : Tables (Observed World)} {dev : DevPtr}
    {mmap : HwioDeviceMmap} {sys : MmapSys World} {memory : MappedMemory World}
    (isMmap : tables.device dev = mmap.served sys memory dev) {header : HwioPacketHeader}
    {ctx : Ctx (Observed World)} {addr : UInt32} {count : Nat}
    (reaches : Reaches header ctx dev addr count) :
    KeepsWindow mmap addr count ctx.world (handleMsg tables header ctx) ↔
      count = 0 ∨ addr.toNat + count ≤ mmap.onBusSize.toNat := by
  obtain ⟨accessed, _⟩ := reaches.accessed isMmap
  obtain ⟨inside, untouched⟩ := accessesSince_of_accessed accessed
  rw [← IhwioDev.fits_iff]
  constructor
  · intro keeps
    by_contra outside
    exact spans_ne_nil outside (untouched.mp (keeps.2 outside).2)
  · intro fits
    exact ⟨inside.mpr ((IhwioDev.spans_inside_iff _ _ _).mpr fits), fun outside => absurd fits outside⟩

namespace HwioServer

/-- For every state and every READ or WRITE request that gets to a mapped
device, hence for those of every run: its accesses keep the window just when it
asks for no byte or ends in the window. -/
theorem window_kept_iff {tables : Tables (Observed World)} {dev : DevPtr}
    {mmap : HwioDeviceMmap} {sys : MmapSys World} {memory : MappedMemory World}
    (isMmap : tables.device dev = mmap.served sys memory dev) :
    (∀ header ctx addr count, Reaches header ctx dev addr count →
      (KeepsWindow mmap addr count ctx.world (handleMsg tables header ctx) ↔
        count = 0 ∨ addr.toNat + count ≤ mmap.onBusSize.toNat)) ∧
    ∀ master tx world server, Reached (prepared tables master tx world) server →
      ∀ client header ctx addr count,
        Requested tables (prepared tables master tx world).service server.trace client header ctx →
        Reaches header ctx dev addr count →
          (KeepsWindow mmap addr count ctx.world (handleMsg tables header ctx) ↔
            count = 0 ∨ addr.toNat + count ≤ mmap.onBusSize.toNat) :=
  ⟨fun _ _ _ _ reaches => keepsWindow_iff isMmap reaches,
    fun _ _ _ _ _ _ _ _ _ _ _ reaches => keepsWindow_iff isMmap reaches⟩

/-- A page of registers that read as zeros. -/
def onePage : HwioDeviceMmap := .new 4096 0x40000000 4096 (text "/dev/mem")

/-- A server with a bus that finds this page for every query. -/
def pageTables : Tables (Observed Unit) where
  device := onePage.served ⟨fun world => ((3, []), world), fun _ _ _ world => (true, world)⟩
    ⟨fun _ world => (0, world), fun _ world => (0, world), fun _ _ world => world,
      fun _ _ world => world⟩
  buses := [⟨fun _ world => (.ok [0], world)⟩]
  plugins := ∅
  pluginsFast := []
  pluginsFastNames := []

/-- No device is open. -/
def closedDevices : Observed Unit := ⟨(), fun _ => ⟨-1, false⟩, []⟩

/-- The run in which the page is found and four bytes of it are read. -/
def readRun (addr : UInt32) : HwioServer (Observed Unit) :=
  loneRun pageTables (List.replicate bufferSize 0) closedDevices
    (queryFrame ++ ([1, 8, 0, 0, 0] ++ u32Bytes addr ++ [4, 0]))

theorem last_word_keeps_window :
    ∃ ctx, Requested pageTables
        (prepared pageTables 3 (List.replicate bufferSize 0) closedDevices).service
        (readRun 4092).trace 0 ⟨1, 8⟩ ctx ∧
      KeepsWindow onePage 4092 4 ctx.world (handleMsg pageTables ⟨1, 8⟩ ctx) := by
  have dispatched : (readRun 4092).trace[11]? =
      some (.dispatched 0 399 ⟨1, 8⟩ [0, 0, 0xFC, 0x0F, 0, 0, 4, 0]) := by decide +kernel
  have requested := @Requested.of_getElem? _ pageTables
    (prepared pageTables 3 (List.replicate bufferSize 0) closedDevices).service _ _ _ _ _ _ dispatched
  refine ⟨_, requested, ?_⟩
  have resolved : clientGetDev (((prepared pageTables 3 (List.replicate bufferSize 0)
      closedDevices).service.after pageTables ((readRun 4092).trace.take 11)).request 0
        [0, 0, 0xFC, 0x0F, 0, 0, 4, 0]).devices 0 = some 0 := by decide +kernel
  have reaches : Reaches ⟨1, 8⟩ (((prepared pageTables 3 (List.replicate bufferSize 0)
      closedDevices).service.after pageTables ((readRun 4092).trace.take 11)).request 0
        [0, 0, 0xFC, 0x0F, 0, 0, 4, 0]) 0 4092 4 := {
    command := Or.inl ⟨by decide, by decide⟩
    device := resolved
    addr := by decide
    count := by decide }
  have isMmap : pageTables.device 0 = onePage.served _ _ 0 := rfl
  exact ((window_kept_iff isMmap).2 3 _ _ _ (loneRun_reached ..) 0 _ _ 4092 4 requested reaches).mpr
    (Or.inr (by decide))

/-- A word behind the page is read and sent to the client. -/
theorem word_behind_window_read :
    Reached (prepared pageTables 3 (List.replicate bufferSize 0) closedDevices) (readRun 4096) ∧
      .called 0 (.read 0 4096 4) ∈ (readRun 4096).trace ∧
      (readRun 4096).world.accesses = [(0, .load32 4096 0)] ∧
      ¬ InWindow onePage (.load32 4096 0) ∧
      .sent 0 [2, 4, 0, 0, 0, 0, 0] ∈ (readRun 4096).trace :=
  ⟨loneRun_reached .., by decide +kernel, by decide +kernel, by decide, by decide +kernel⟩

end HwioServer

end Hwio
