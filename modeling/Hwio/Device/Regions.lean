import Hwio.Device.ByteMemory
import Hwio.Device.Mmap

/-!
Contract: devices that are regions of one memory.

Owns what such a device is to the server, and that a device whose mapping shows
a part of the memory is one.

Does not own which devices a server has.
-/

namespace Hwio

open Library

variable {World : Type}

/-- The device is `size` bytes of a memory from `base` on: bulk reads and writes
inside of it do not throw, they read and write the bytes at its place, and nothing
else of it changes the memory. -/
structure ServedDevice.Region (device : ServedDevice World) (cells : World → Cells)
    (base size : Nat) : Prop where
  attach : ∀ world, cells (device.attach world).2 = cells world
  read : ∀ (offset : UInt32) n world, offset.toNat + n ≤ size →
    (device.read offset n world).1 = ⟨(cells world).slice (base + offset.toNat) n, none⟩ ∧
      cells (device.read offset n world).2 = cells world
  write : ∀ (offset : UInt32) data world, offset.toNat + data.length ≤ size →
    (device.write offset data world).1 = none ∧
      cells (device.write offset data world).2 =
        (cells world).put (base + offset.toNat) data

/-! ## Mapped devices -/

/-- What is loaded and stored in a mapping of `space` bytes are the bytes of a
memory from `page` on, words in the byte order of the host. -/
structure MappedMemory.Shows (memory : MappedMemory World) (cells : World → Cells)
    (page space : Nat) : Prop where
  load8 : ∀ position world, position + 1 ≤ space →
    [(memory.load8 position world).1] = (cells world).slice (page + position) 1 ∧
      cells (memory.load8 position world).2 = cells world
  load32 : ∀ position world, position + 4 ≤ space →
    u32Bytes (memory.load32 position world).1 = (cells world).slice (page + position) 4 ∧
      cells (memory.load32 position world).2 = cells world
  store8 : ∀ position value world, position + 1 ≤ space →
    cells (memory.store8 position value world) = (cells world).put (page + position) [value]
  store32 : ∀ position value world, position + 4 ≤ space →
    cells (memory.store32 position value world) =
      (cells world).put (page + position) (u32Bytes value)

namespace HwioDeviceMmap

variable {mmap : HwioDeviceMmap} {memory : MappedMemory World} {cells : World → Cells} {page : Nat}
  (shows : memory.Shows cells page mmap.addrSpaceSize)
  (covered : mmap.pageOffset.toNat + mmap.onBusSize.toNat ≤ mmap.addrSpaceSize)

include shows covered

/-- The single accesses of a mapped device act on its part of the memory. -/
theorem device_actsOnBytes (dev : DevPtr) :
    ActsOnBytes (mmap.device memory dev)
      (fun observed => (cells observed.world).window (page + mmap.pageOffset.toNat)
        mmap.onBusSize.toNat) mmap.onBusSize.toNat where
  read8 offset observed inside := by
    have ⟨value, same⟩ := shows.load8 (mmap.position offset) observed.world (by
      unfold position
      omega)
    rw [Cells.window_slice _ inside, Nat.add_assoc]
    exact ⟨value, congrArg (Cells.window · _ _) same⟩
  read32 offset observed inside := by
    have ⟨value, same⟩ := shows.load32 (mmap.position offset) observed.world (by
      unfold position
      omega)
    rw [Cells.window_slice _ inside, Nat.add_assoc]
    exact ⟨value, congrArg (Cells.window · _ _) same⟩
  write8 offset value observed inside := by
    have stored := shows.store8 (mmap.position offset) value observed.world (by
      unfold position
      omega)
    rw [← Cells.window_put _ inside, Nat.add_assoc]
    exact congrArg (Cells.window · _ _) stored
  write32 offset value observed inside := by
    have stored := shows.store32 (mmap.position offset) value observed.world (by
      unfold position
      omega)
    rw [← Cells.window_put _ (by rwa [u32Bytes_length]), Nat.add_assoc]
    exact congrArg (Cells.window · _ _) stored

/-- A mapped device is a region of the memory that its mapping shows. -/
theorem served_region {sys : MmapSys World}
    (opens : ∀ world, cells (sys.openFile world).2 = cells world)
    (maps : ∀ fd length addr world, cells (sys.mmap fd length addr world).2 = cells world)
    (dev : DevPtr) :
    (mmap.served sys memory dev).Region (fun observed => cells observed.world)
      (page + mmap.pageOffset.toNat) mmap.onBusSize.toNat where
  attach observed := by
    show cells (mmap.attach sys dev observed).2.world = cells observed.world
    unfold attach
    split
    · simp only
      split
      · exact opens _
      · split
        · exact (maps _ _ _ _).trans (opens _)
        · exact (maps _ _ _ _).trans (opens _)
    · rfl
  read offset n observed inside := by
    have acts := device_actsOnBytes shows covered dev
    have bounded := Nat.le_of_lt mmap.onBusSize.toNat_lt
    have ⟨bytes, same⟩ := acts.read bounded n inside observed
    rw [UInt32.ofNat_toNat] at bytes same
    constructor
    · rw [← Cells.window_slice _ inside, ← bytes]
      rfl
    · exact Cells.window_inj same
  write offset data observed inside := by
    have acts := device_actsOnBytes shows covered dev
    have bounded := Nat.le_of_lt mmap.onBusSize.toNat_lt
    have written := acts.write bounded data inside observed
    rw [UInt32.ofNat_toNat, ← Cells.window_put _ inside] at written
    exact ⟨rfl, Cells.window_inj written⟩

end HwioDeviceMmap

end Hwio
