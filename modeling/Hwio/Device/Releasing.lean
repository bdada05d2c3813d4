import Hwio.Device.Mmap
import Hwio.Library.Noninterference

/-!
Contract: what a mapped device holds of the kernel, from its constructor to its
destructor.

Owns the destructor, the log of what the kernel grants to devices and takes back,
what was granted to a device in every state of it, and what a device leaves alone.

Does not own when devices are attached and destroyed.
-/

namespace Hwio

open Library

variable {World View : Type}

/-! ## The kernel -/

/-- The system calls of the destructor. -/
structure ReleaseSys (World : Type) where
  munmap : Nat → World → World
  close : Int → World → World

/-- What the kernel granted to a device, or took back. -/
inductive KernelCall where
  | opened (fd : Int)
  | mapped (fd : Int) (length : Nat)
  | unmapped (length : Nat)
  | closed (fd : Int)
deriving DecidableEq, Repr

abbrev KernelLog := List (DevPtr × KernelCall)

/-- System calls that grant something are noted for the device. -/
def MmapSys.noted (sys : MmapSys World) (dev : DevPtr) : MmapSys (World × KernelLog) where
  openFile := fun (world, log) =>
    let ((fd, strerror), world) := sys.openFile world
    ((fd, strerror), world, if fd < 0 then log else log ++ [(dev, .opened fd)])
  mmap fd length addr := fun (world, log) =>
    let (isMapped, world) := sys.mmap fd length addr world
    (isMapped, world, if isMapped then log ++ [(dev, .mapped fd length)] else log)

theorem MmapSys.noted_openFile (sys : MmapSys World) (dev : DevPtr) (world : World × KernelLog) :
    ((sys.noted dev).openFile world).2.2 = world.2 ++
      (if ((sys.noted dev).openFile world).1.1 < 0 then []
        else [.opened ((sys.noted dev).openFile world).1.1]).map (Prod.mk dev) := by
  show (if (sys.openFile world.1).1.1 < 0 then _ else _) =
    _ ++ List.map _ (if (sys.openFile world.1).1.1 < 0 then _ else _)
  split
  · exact (List.append_nil _).symm
  · rfl

theorem MmapSys.noted_mmap (sys : MmapSys World) (dev : DevPtr) (fd : Int) (length : Nat)
    (addr : UInt32) (world : World × KernelLog) :
    ((sys.noted dev).mmap fd length addr world).2.2 = world.2 ++
      (if ((sys.noted dev).mmap fd length addr world).1 then [.mapped fd length]
        else []).map (Prod.mk dev) := by
  show (if (sys.mmap fd length addr world.1).1 then _ else _) =
    _ ++ List.map _ (if (sys.mmap fd length addr world.1).1 then _ else _)
  split
  · rfl
  · exact (List.append_nil _).symm

def ReleaseSys.noted (release : ReleaseSys World) (dev : DevPtr) :
    ReleaseSys (World × KernelLog) where
  munmap length := fun (world, log) =>
    (release.munmap length world, log ++ [(dev, .unmapped length)])
  close fd := fun (world, log) => (release.close fd world, log ++ [(dev, .closed fd)])

/-- Accesses are no system calls. -/
def MappedMemory.noted (memory : MappedMemory World) : MappedMemory (World × KernelLog) where
  load8 position := fun (world, log) =>
    let (value, world) := memory.load8 position world
    (value, world, log)
  load32 position := fun (world, log) =>
    let (value, world) := memory.load32 position world
    (value, world, log)
  store8 position value := fun (world, log) => (memory.store8 position value world, log)
  store32 position value := fun (world, log) => (memory.store32 position value world, log)

/-! ## The destructor -/

/-- `hwio_device_mmap::~hwio_device_mmap` -/
def HwioDeviceMmap.destroy (mmap : HwioDeviceMmap) (release : ReleaseSys World) (dev : DevPtr)
    (observed : Observed World) : Observed World :=
  let world := observed.world
  let world :=
    if (observed.state dev).isMapped then release.munmap mmap.addrSpaceSize world else world
  let world :=
    if (observed.state dev).fd > 0 then release.close (observed.state dev).fd world else world
  { observed with world := world }

/-! ## What was granted -/

/-- What was granted to a device with an address space of some size when it is in a
state. -/
inductive Granted (space : Nat) : MmapState → List KernelCall → Prop
  | nothing {fd : Int} (unopened : fd < 0) : Granted space ⟨fd, false⟩ []
  | descriptor {fd : Int} (positive : 0 < fd) : Granted space ⟨fd, false⟩ [.opened fd]
  | mapping {fd : Int} (positive : 0 < fd) :
      Granted space ⟨fd, true⟩ [.opened fd, .mapped fd space]
  | zero : Granted space ⟨0, false⟩ [.opened 0]

/-- All that the kernel does for a device from its constructor to its destructor:
what was granted is given back, except for the descriptor 0. -/
inductive Lifetime (space : Nat) : List KernelCall → Prop
  | unused : Lifetime space []
  | unmapped {fd : Int} (positive : 0 < fd) : Lifetime space [.opened fd, .closed fd]
  | mapped {fd : Int} (positive : 0 < fd) :
      Lifetime space [.opened fd, .mapped fd space, .unmapped space, .closed fd]
  | zero : Lifetime space [.opened 0]

/-- What the destructor of a device in a state gives back. -/
def released (space : Nat) (state : MmapState) : List KernelCall :=
  (if state.isMapped then [.unmapped space] else []) ++
    if state.fd > 0 then [.closed state.fd] else []

/-- The destructor gives back what was granted. -/
theorem Granted.released {space : Nat} {state : MmapState} {calls : List KernelCall}
    (granted : Granted space state calls) : Lifetime space (calls ++ released space state) := by
  unfold Hwio.released
  cases granted with
  | nothing unopened =>
      rw [if_neg (Int.not_lt.mpr (Int.le_of_lt unopened))]
      exact .unused
  | descriptor positive =>
      rw [if_pos positive]
      exact .unmapped positive
  | mapping positive =>
      rw [if_pos positive]
      exact .mapped positive
  | zero => exact .zero

/-- What was granted to all devices is as their states tell. -/
def AllGranted (space : DevPtr → Nat) (observed : Observed (World × KernelLog)) : Prop :=
  ∀ dev, Granted (space dev) (observed.state dev) (callsOf dev observed.world.2)

theorem callsOf_noted (dev : DevPtr) (log : KernelLog) (calls : List KernelCall) :
    callsOf dev (log ++ calls.map (Prod.mk dev)) = callsOf dev log ++ calls := by
  rw [callsOf_append]
  congr 1
  induction calls with
  | nil => rfl
  | cons call rest inductionHypothesis =>
      rw [List.map_cons, callsOf_cons_self, inductionHypothesis]

theorem callsOf_noted_other {dev other : DevPtr} (apart : dev ≠ other) (log : KernelLog)
    (calls : List KernelCall) :
    callsOf other (log ++ calls.map (Prod.mk dev)) = callsOf other log := by
  have none : callsOf other (calls.map (Prod.mk dev)) = [] := by
    induction calls with
    | nil => rfl
    | cons call rest inductionHypothesis =>
        rw [List.map_cons, callsOf_cons_other apart, inductionHypothesis]
  rw [callsOf_append, none, List.append_nil]

namespace HwioDeviceMmap

variable (mmap : HwioDeviceMmap)

/-- What an `attach` changes: nothing when a file is open; else what is granted to
the device then. -/
theorem attach_noted (sys : MmapSys World) (dev : DevPtr)
    (observed : Observed (World × KernelLog)) :
    (mmap.attach (sys.noted dev) dev observed).2 = observed ∨
      (observed.state dev).fd < 0 ∧ ∃ fd isMapped calls,
        (mmap.attach (sys.noted dev) dev observed).2.state =
          Function.update observed.state dev ⟨fd, isMapped⟩ ∧
        (mmap.attach (sys.noted dev) dev observed).2.world.2 =
          observed.world.2 ++ calls.map (Prod.mk dev) ∧
        ((observed.state dev).isMapped = false →
          Granted mmap.addrSpaceSize ⟨fd, isMapped⟩ calls) := by
  have opens := sys.noted_openFile dev observed.world
  unfold attach
  by_cases unopened : (observed.state dev).fd < 0
  · rw [if_pos unopened]
    refine Or.inr ⟨unopened, ?_⟩
    generalize (sys.noted dev).openFile observed.world = opening at opens ⊢
    obtain ⟨⟨fd, strerror⟩, world⟩ := opening
    simp only at opens ⊢
    by_cases refused : fd ≤ 0
    · rw [if_pos refused]
      by_cases negative : fd < 0
      · rw [if_pos negative] at opens
        refine ⟨fd, _, [], rfl, opens, ?_⟩
        intro unmapped
        rw [unmapped]
        exact .nothing negative
      · obtain rfl : fd = 0 := by omega
        refine ⟨0, _, [.opened 0], rfl, opens, ?_⟩
        intro unmapped
        rw [unmapped]
        exact .zero
    · have positive : 0 < fd := Int.not_le.mp refused
      rw [if_neg (Int.not_lt.mpr (Int.le_of_lt positive))] at opens
      have maps := sys.noted_mmap dev fd mmap.addrSpaceSize mmap.pageAddr world
      rw [opens, List.append_assoc, ← List.map_append] at maps
      have new : ∀ isMapped : Bool, Granted mmap.addrSpaceSize ⟨fd, isMapped⟩
          ([.opened fd] ++ if isMapped then [.mapped fd mmap.addrSpaceSize] else []) := by
        intro isMapped
        cases isMapped with
        | false => exact .descriptor positive
        | true => exact .mapping positive
      rw [if_neg refused]
      -- Whether it was mapped decides what is thrown, and what is left is the same.
      split
      · exact ⟨fd, _, _, rfl, maps, fun _ => new _⟩
      · exact ⟨fd, _, _, rfl, maps, fun _ => new _⟩
  · rw [if_neg unopened]
    exact Or.inl rfl

/-- An `attach` keeps the account of what was granted. -/
theorem attach_granted (sys : MmapSys World) {dev : DevPtr} {space : DevPtr → Nat}
    (own : space dev = mmap.addrSpaceSize) {observed : Observed (World × KernelLog)}
    (granted : AllGranted space observed) :
    AllGranted space (mmap.attach (sys.noted dev) dev observed).2 := by
  rcases mmap.attach_noted sys dev observed with same | ⟨unopened, fd, isMapped, calls, state, log, new⟩
  · rw [same]
    exact granted
  intro other
  rw [state, log]
  by_cases apart : dev = other
  · subst apart
    have before := granted dev
    rw [callsOf_noted, Function.update_self, own]
    generalize observed.state dev = current at unopened new before
    generalize callsOf dev observed.world.2 = made at before ⊢
    cases before with
    | nothing => exact new rfl
    | descriptor positive | mapping positive => exact absurd unopened (by simp only; omega)
    | zero => exact absurd unopened (Int.lt_irrefl 0)
  · rw [callsOf_noted_other apart, Function.update_of_ne (Ne.symm apart)]
    exact granted other

theorem destroy_log (release : ReleaseSys World) (dev : DevPtr)
    (observed : Observed (World × KernelLog)) :
    (mmap.destroy (release.noted dev) dev observed).world.2 = observed.world.2 ++
      (released mmap.addrSpaceSize (observed.state dev)).map (Prod.mk dev) := by
  obtain ⟨⟨world, log⟩, state, accesses⟩ := observed
  unfold destroy released
  simp only [ReleaseSys.noted]
  cases (state dev).isMapped with
  | false =>
      by_cases opened : (state dev).fd > 0
      · rw [if_pos opened, if_pos opened]
        rfl
      · rw [if_neg opened, if_neg opened]
        exact (List.append_nil log).symm
  | true =>
      by_cases opened : (state dev).fd > 0
      · rw [if_pos opened, if_pos opened]
        exact List.append_assoc ..
      · rw [if_neg opened, if_neg opened]
        rfl

end HwioDeviceMmap

/-! ## What accesses leave alone -/

/-- No single access changes what is seen. -/
structure IhwioDev.Silent (dev : IhwioDev World) (see : World → View) : Prop where
  read8 : ∀ offset, Blind see (dev.read8 offset)
  read32 : ∀ offset, Blind see (dev.read32 offset)
  write8 : ∀ offset val world, see (dev.write8 offset val world) = see world
  write32 : ∀ offset val world, see (dev.write32 offset val world) = see world

namespace IhwioDev.Silent

variable {dev : IhwioDev World} {see : World → View} (silent : dev.Silent see)

include silent

theorem readBytes (n : Nat) (offset : UInt32) : Blind see (dev.readBytes n offset) := by
  induction n generalizing offset with
  | zero => exact fun world => rfl
  | succ n inductionHypothesis =>
      intro world
      rw [IhwioDev.readBytes]
      exact (inductionHypothesis (offset + 1) _).trans (silent.read8 offset world)

theorem read (n : Nat) (offset : UInt32) : Blind see (dev.read n offset) := by
  induction n using words_induction generalizing offset with
  | short n less =>
      intro world
      rw [read_of_lt dev less]
      exact silent.readBytes n offset world
  | word n inductionHypothesis =>
      intro world
      rw [IhwioDev.read]
      exact (inductionHypothesis (offset + 4) _).trans (silent.read32 offset world)

theorem writeBytes (data : List Byte) (offset : UInt32) (world : World) :
    see (dev.writeBytes data offset world) = see world := by
  induction data generalizing offset world with
  | nil => rfl
  | cons byte rest inductionHypothesis =>
      rw [IhwioDev.writeBytes, inductionHypothesis]
      exact silent.write8 offset byte world

theorem write (data : List Byte) (offset : UInt32) (world : World) :
    see (dev.write data offset world) = see world := by
  induction count : data.length using words_induction generalizing data offset world with
  | short n less =>
      rw [write_of_lt dev (by omega)]
      exact silent.writeBytes data offset world
  | word n inductionHypothesis =>
      match data, count with
      | a :: b :: c :: d :: rest, count =>
          simp only [List.length_cons] at count
          rw [IhwioDev.write, inductionHypothesis rest _ _ (by omega)]
          exact silent.write32 offset _ world

end IhwioDev.Silent

/-- The accesses of a mapped device leave its state and the log alone. -/
theorem HwioDeviceMmap.device_silent (mmap : HwioDeviceMmap) (memory : MappedMemory World)
    (dev : DevPtr) :
    (mmap.device memory.noted dev).Silent
      fun observed => (observed.state, observed.world.2) where
  read8 _ _ := rfl
  read32 _ _ := rfl
  write8 _ _ _ := rfl
  write32 _ _ _ := rfl

end Hwio
