import Hwio.Device.IhwioDev
import Hwio.Server.State

/-!
Contract: `hwio_device_mmap.cpp`, a device whose registers are mapped memory.

Owns the constructor, `attach` and the accessors, the record of the accesses
made on mapped memory, and the device as the server calls it.

What an access does to the world is arbitrary: registers are no plain memory.
-/

namespace Hwio

open Library

variable {World : Type}

/-! ## Mapped memory -/

/-- One access of the mapped memory of a device; `position` is its distance
from `dev_mem`. -/
inductive Access where
  | load8 (position : Nat) (value : UInt8)
  | load32 (position : Nat) (value : UInt32)
  | store8 (position : Nat) (value : UInt8)
  | store32 (position : Nat) (value : UInt32)
deriving DecidableEq, Repr

/-- The position and the width of an access. -/
def Access.span : Access → Nat × Nat
  | .load8 position _ | .store8 position _ => (position, 1)
  | .load32 position _ | .store32 position _ => (position, 4)

/-- What loads and stores on the mapping of a device do. -/
structure MappedMemory (World : Type) where
  load8 : Nat → World → UInt8 × World
  load32 : Nat → World → UInt32 × World
  store8 : Nat → UInt8 → World → World
  store32 : Nat → UInt32 → World → World

/-- `fd` and whether `dev_mem` is a mapping. -/
structure MmapState where
  fd : Int
  isMapped : Bool
deriving DecidableEq, Repr

/-- The world with the state of the devices and the accesses made so far. -/
structure Observed (World : Type) where
  world : World
  state : DevPtr → MmapState
  accesses : List (DevPtr × Access)

/-- The system calls of `attach`: the descriptor and `strerror(errno)` of
`open`, and whether `mmap` succeeds. -/
structure MmapSys (World : Type) where
  openFile : World → (Int × Text) × World
  mmap : Int → Nat → UInt32 → World → Bool × World

/-! ## The device -/

/-- `hwio_device_mmap` -/
structure HwioDeviceMmap where
  memFileName : Text
  onBusBaseAddr : UInt32
  onBusSize : UInt32
  pageAddr : UInt32
  pageOffset : UInt32
  addrSpaceSize : Nat
deriving DecidableEq, Repr

namespace HwioDeviceMmap

/-- The constructor; `pageSize` is `sysconf(_SC_PAGESIZE)`. -/
def new (pageSize baseAddr size : UInt32) (memFileName : Text) : HwioDeviceMmap :=
  let s := size.toNat
  let s := if s < pageSize.toNat then pageSize.toNat else s
  let s := if s > s / pageSize.toNat then s + pageSize.toNat else s
  let pageAddr := baseAddr &&& ~~~(pageSize - 1)
  { memFileName := memFileName
    onBusBaseAddr := baseAddr
    onBusSize := size
    pageAddr := pageAddr
    pageOffset := baseAddr - pageAddr
    addrSpaceSize := s }

/-- `hwio_device_mmap::attach` -/
def attach (mmap : HwioDeviceMmap) (sys : MmapSys World) (dev : DevPtr)
    (observed : Observed World) : Option Exn × Observed World :=
  if (observed.state dev).fd < 0 then
    let ((fd, strerror), world) := sys.openFile observed.world
    let put := fun isMapped => Function.update observed.state dev ⟨fd, isMapped⟩
    if fd ≤ 0 then
      (some ⟨true, text "Can not open memory file: " ++ mmap.memFileName ++ text ", " ++ strerror⟩,
        { observed with world := world, state := put (observed.state dev).isMapped })
    else
      let (isMapped, world) := sys.mmap fd mmap.addrSpaceSize mmap.pageAddr world
      let observed := { observed with world := world, state := put isMapped }
      if isMapped then (none, observed) else (some ⟨true, text "Can not mmap memory"⟩, observed)
  else (none, observed)

/-- `(char *) dev_mem + page_offset + offset`, without `dev_mem` -/
def position (mmap : HwioDeviceMmap) (offset : UInt32) : Nat :=
  mmap.pageOffset.toNat + offset.toNat

/-- The accessors of a device behind a pointer. -/
def device (mmap : HwioDeviceMmap) (memory : MappedMemory World) (dev : DevPtr) :
    IhwioDev (Observed World) :=
  let load8 := fun position observed =>
    let (value, world) := memory.load8 position observed.world
    (value, { observed with
      world := world, accesses := observed.accesses ++ [(dev, .load8 position value)] })
  let load32 := fun position observed =>
    let (value, world) := memory.load32 position observed.world
    (value, { observed with
      world := world, accesses := observed.accesses ++ [(dev, .load32 position value)] })
  let store8 := fun position value observed =>
    { observed with
      world := memory.store8 position value observed.world
      accesses := observed.accesses ++ [(dev, .store8 position value)] }
  let store32 := fun position value observed =>
    { observed with
      world := memory.store32 position value observed.world
      accesses := observed.accesses ++ [(dev, .store32 position value)] }
  { read8 := fun offset => load8 (mmap.position offset)
    read32 := fun offset => load32 (mmap.position offset)
    read64 := fun offset observed =>
      let (d, observed) := load32 (mmap.position offset) observed
      let (tmp, observed) := load32 (mmap.position offset + 4) observed
      (d.toUInt64 ||| tmp.toUInt64 <<< 32, observed)
    write8 := fun offset => store8 (mmap.position offset)
    write32 := fun offset => store32 (mmap.position offset)
    write64 := fun offset val observed =>
      store32 (mmap.position offset + 4) (val >>> 32).toUInt32
        (store32 (mmap.position offset) val.toUInt32 observed) }

/-- The device as the server calls it; its accessors throw nothing. -/
def served (mmap : HwioDeviceMmap) (sys : MmapSys World) (memory : MappedMemory World)
    (dev : DevPtr) : ServedDevice (Observed World) where
  attach := mmap.attach sys dev
  read offset count observed :=
    let result := (mmap.device memory dev).read count offset observed
    (⟨result.1, none⟩, result.2)
  write offset bytes observed := (none, (mmap.device memory dev).write bytes offset observed)
  read_le _ _ _ := Nat.le_of_eq (IhwioDev.read_length ..)
  read_all _ _ _ _ := IhwioDev.read_length ..

/-! ## Accesses -/

/-- The accesses of a device that were added to the record, in order. -/
def Accessed (mmap : HwioDeviceMmap) (dev : DevPtr) (spans : List (UInt32 × Nat))
    (before after : Observed World) : Prop :=
  ∃ accesses : List Access, after.accesses = before.accesses ++ accesses.map (dev, ·) ∧
    accesses.map Access.span = spans.map fun span => (mmap.position span.1, span.2)

theorem Accessed.nil (mmap : HwioDeviceMmap) (dev : DevPtr) (observed : Observed World) :
    mmap.Accessed dev [] observed observed :=
  ⟨[], (List.append_nil _).symm, rfl⟩

theorem Accessed.cons {mmap : HwioDeviceMmap} {dev : DevPtr} {span : UInt32 × Nat}
    {spans : List (UInt32 × Nat)} {before between after : Observed World} {access : Access}
    (first : between.accesses = before.accesses ++ [(dev, access)])
    (same : access.span = (mmap.position span.1, span.2))
    (rest : mmap.Accessed dev spans between after) :
    mmap.Accessed dev (span :: spans) before after := by
  obtain ⟨accesses, appended, visited⟩ := rest
  refine ⟨access :: accesses, ?_, ?_⟩
  · rw [appended, first, List.append_assoc]
    rfl
  · rw [List.map_cons, List.map_cons, same, visited]

variable (mmap : HwioDeviceMmap) (memory : MappedMemory World) (dev : DevPtr)

theorem readBytes_accessed (n : Nat) (offset : UInt32) (observed : Observed World) :
    mmap.Accessed dev (IhwioDev.byteSpans n offset) observed
      ((mmap.device memory dev).readBytes n offset observed).2 := by
  induction n generalizing offset observed with
  | zero => exact .nil mmap dev observed
  | succ n inductionHypothesis => exact .cons rfl rfl (inductionHypothesis _ _)

/-- A bulk read visits the spans of its loop. -/
theorem read_accessed (n : Nat) (offset : UInt32) (observed : Observed World) :
    mmap.Accessed dev (IhwioDev.spans n offset) observed
      ((mmap.device memory dev).read n offset observed).2 := by
  induction n using IhwioDev.words_induction generalizing offset observed with
  | short n less =>
      rw [IhwioDev.read_of_lt _ less, IhwioDev.spans_of_lt less]
      exact readBytes_accessed mmap memory dev n offset observed
  | word n inductionHypothesis => exact .cons rfl rfl (inductionHypothesis _ _)

theorem writeBytes_accessed (data : List Byte) (offset : UInt32) (observed : Observed World) :
    mmap.Accessed dev (IhwioDev.byteSpans data.length offset) observed
      ((mmap.device memory dev).writeBytes data offset observed) := by
  induction data generalizing offset observed with
  | nil => exact .nil mmap dev observed
  | cons byte rest inductionHypothesis => exact .cons rfl rfl (inductionHypothesis _ _)

/-- A bulk write visits the spans of its loop. -/
theorem write_accessed (data : List Byte) (offset : UInt32) (observed : Observed World) :
    mmap.Accessed dev (IhwioDev.spans data.length offset) observed
      ((mmap.device memory dev).write data offset observed) := by
  induction data, offset, observed using IhwioDev.write.induct (mmap.device memory dev) with
  | case1 offset observed a b c d rest inductionHypothesis =>
      exact .cons rfl rfl inductionHypothesis
  | case2 data offset observed short =>
      have less : data.length < 4 := by
        match data, short with
        | [], _ => simp
        | [_], _ => simp
        | [_, _], _ => simp
        | [_, _, _], _ => simp
        | a :: b :: c :: d :: rest, short => exact absurd rfl (short a b c d rest)
      rw [IhwioDev.write_of_lt _ less, IhwioDev.spans_of_lt less]
      exact writeBytes_accessed mmap memory dev data offset observed

end HwioDeviceMmap

end Hwio
