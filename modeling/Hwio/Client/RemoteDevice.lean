import Hwio.Client.Operations
import Hwio.Device.Calls
import Hwio.Library.Runs

/-!
Contract: the calls of `ihwio_dev.h` on a proxy, from `hwio_device_remote.cpp`.

Owns the requests that each call makes, and that doing on a device what these
requests ask for is making the call on the device.

Does not own how the requests get there.
-/

namespace Hwio

open Library

variable {World : Type}

/-! ## The proxy -/

namespace HwioDeviceRemote

variable (remote : HwioDeviceRemote)

def read (offset : UInt32) (n : Nat) : Op := .read remote.id offset n

def read8 (offset : UInt32) : Op := remote.read offset 1

def read32 (offset : UInt32) : Op := remote.read offset 4

def read64 (offset : UInt32) : Op := remote.read offset 8

def write (offset : UInt32) (data : List Byte) : Op := .write remote.id offset data

def write8 (offset : UInt32) (val : UInt8) : Op := remote.write offset [val]

def write32 (offset : UInt32) (val : UInt32) : Op := remote.write offset (u32Bytes val)

def write64 (offset : UInt32) (val : UInt64) : Op := remote.write offset (leBytes 8 val.toNat)

/-- The bytes behind the last whole word of `memset`. -/
def memsetBytes (c : UInt8) : Nat → UInt32 → List Op
  | 0, _ => []
  | n + 1, offset => remote.write8 offset c :: memsetBytes c n (offset + 1)

/-- `ihwio_dev::memset`, which the proxy does not override. -/
def memset (c : UInt8) : Nat → UInt32 → List Op
  | n + 4, offset => remote.write32 offset (IhwioDev.fill32 c) :: memset c n (offset + 4)
  | n, offset => remote.memsetBytes c n offset

/-- The operations of a call. -/
def call : DevCall → List Op
  | .read8 offset => [remote.read8 offset]
  | .read32 offset => [remote.read32 offset]
  | .read64 offset => [remote.read64 offset]
  | .read offset n => [remote.read offset n]
  | .write8 offset val => [remote.write8 offset val]
  | .write32 offset val => [remote.write32 offset val]
  | .write64 offset val => [remote.write64 offset val]
  | .write offset data => [remote.write offset data]
  | .memset offset c n => remote.memset c n offset

theorem memset_of_lt (c : UInt8) {n : Nat} (short : n < 4) (offset : UInt32) :
    remote.memset c n offset = remote.memsetBytes c n offset := by
  match n, short with
  | 0, _ => rfl
  | 1, _ => rfl
  | 2, _ => rfl
  | 3, _ => rfl

end HwioDeviceRemote

/-! ## The calls within bounds -/

/-- A call inside the address space whose requests and replies fit the
buffers. -/
structure DevCall.Allowed (call : DevCall) : Prop where
  inside : call.offset.toNat + call.size ≤ 2 ^ 32
  read : ∀ offset n, call = .read offset n → n ≤ 2045
  write : ∀ offset data, call = .write offset data → data.length ≤ 2037

/-- An operation on the device with an id whose frames fit the buffers. -/
def Op.Accesses (id : UInt16) : Op → Prop
  | .read other _ n => other = id ∧ sizeofHeader + n ≤ bufferSize
  | .write other _ data => other = id ∧ sizeofHeader + sizeofWrReq + data.length ≤ bufferSize
  | _ => False

theorem Op.Accesses.fits {id : UInt16} {op : Op} (accesses : op.Accesses id) : op.Fits := by
  cases op with
  | read other offset n =>
      rw [Fits, fields, rdReq_length]
      decide
  | write other offset data =>
      obtain ⟨_, short⟩ := accesses
      rw [Fits, fields, List.length_append, rdReq_length]
      exact Nat.le_trans (Nat.le_of_eq (Nat.add_assoc ..).symm) short
  | _ => cases accesses

theorem Op.Accesses.asserted {id : UInt16} {op : Op} (accesses : op.Accesses id) :
    op.Asserted := by
  cases op with
  | read other offset n =>
      have ⟨_, short⟩ := accesses
      simp only [Asserted, sizeofHeader, bufferSize] at short ⊢
      omega
  | write other offset data =>
      have ⟨_, short⟩ := accesses
      simp only [Asserted, sizeofHeader, bufferSize] at short ⊢
      omega
  | _ => cases accesses

namespace HwioDeviceRemote

variable (remote : HwioDeviceRemote)

theorem read_accesses (offset : UInt32) {n : Nat} (short : n ≤ 2045) :
    (remote.read offset n).Accesses remote.id := by
  refine ⟨rfl, ?_⟩
  simp only [sizeofHeader, bufferSize]
  omega

theorem write_accesses (offset : UInt32) {data : List Byte} (short : data.length ≤ 2037) :
    (remote.write offset data).Accesses remote.id := by
  refine ⟨rfl, ?_⟩
  simp only [sizeofHeader, sizeofWrReq, sizeofRdReq, bufferSize]
  omega

theorem write32_accesses (offset val : UInt32) : (remote.write32 offset val).Accesses remote.id := by
  apply write_accesses
  rw [u32Bytes_length]
  decide

theorem memsetBytes_accesses (c : UInt8) (n : Nat) (offset : UInt32) :
    ∀ op ∈ remote.memsetBytes c n offset, op.Accesses remote.id ∧ op.waits = false := by
  induction n generalizing offset with
  | zero => nofun
  | succ n before =>
      rw [memsetBytes, List.forall_mem_cons]
      exact ⟨⟨remote.write_accesses offset (by simp), rfl⟩, before (offset + 1)⟩

theorem memset_accesses (c : UInt8) (n : Nat) (offset : UInt32) :
    ∀ op ∈ remote.memset c n offset, op.Accesses remote.id ∧ op.waits = false := by
  induction n using IhwioDev.words_induction generalizing offset with
  | short n less =>
      rw [memset_of_lt remote c less]
      exact remote.memsetBytes_accesses c n offset
  | word n before =>
      rw [memset, List.forall_mem_cons]
      exact ⟨⟨remote.write32_accesses offset _, rfl⟩, before (offset + 4)⟩

/-- The operations of a call access the device of the proxy. -/
theorem call_accesses {call : DevCall} (allowed : call.Allowed) :
    ∀ op ∈ remote.call call, op.Accesses remote.id := by
  have single : ∀ op : Op, op.Accesses remote.id →
      ∀ other ∈ [op], other.Accesses remote.id := by
    intro op accesses other member
    rw [List.mem_singleton.mp member]
    exact accesses
  cases call with
  | read8 offset => exact single _ (remote.read_accesses offset (by decide))
  | read32 offset => exact single _ (remote.read_accesses offset (by decide))
  | read64 offset => exact single _ (remote.read_accesses offset (by decide))
  | read offset n => exact single _ (remote.read_accesses offset (allowed.read offset n rfl))
  | write8 offset val => exact single _ (remote.write_accesses offset (by simp))
  | write32 offset val => exact single _ (remote.write32_accesses offset val)
  | write64 offset val => exact single _ (remote.write_accesses offset (by simp))
  | write offset data =>
      exact single _ (remote.write_accesses offset (allowed.write offset data rfl))
  | memset offset c n => exact fun op member => (remote.memset_accesses c n offset op member).1

end HwioDeviceRemote

/-! ## What the operations do -/

namespace IhwioDev

variable (dev : IhwioDev World)

/-- What a read or write asks a device to do, and the bytes that it returns. -/
def does : Op → World → List Byte × World
  | .read _ offset n, world => dev.read n offset world
  | .write _ offset data, world => ([], dev.write data offset world)
  | _, world => ([], world)

theorem does_memsetBytes (remote : HwioDeviceRemote) (c : UInt8) (n : Nat) (offset : UInt32)
    (world : World) :
    (runAll dev.does (remote.memsetBytes c n offset) world).2 =
      dev.writeBytes (List.replicate n c) offset world := by
  induction n generalizing offset world with
  | zero => rfl
  | succ n before =>
      rw [HwioDeviceRemote.memsetBytes, runAll, before]
      rfl

theorem does_memset (remote : HwioDeviceRemote) (c : UInt8) (n : Nat) (offset : UInt32)
    (world : World) :
    (runAll dev.does (remote.memset c n offset) world).2 = dev.memset c n offset world := by
  induction n using words_induction generalizing offset world with
  | short n less =>
      rw [memset_of_lt dev c less, HwioDeviceRemote.memset_of_lt remote c less]
      exact dev.does_memsetBytes remote c n offset world
  | word n before =>
      have word := dev.write_one_word (fill32 c) offset world
      rw [HwioDeviceRemote.memset, runAll, before, memset, ← word]
      rfl

variable {dev}

/-- The operations of a call do on a device what the call does. -/
theorem InHalves.does_call (halves : dev.InHalves) (remote : HwioDeviceRemote) {call : DevCall}
    (allowed : call.Allowed) (world : World) :
    (runAll dev.does (remote.call call) world).2 = (dev.call call world).2 := by
  cases call with
  | read8 offset => rfl
  | read32 offset => exact congrArg Prod.snd (dev.read_one_word offset world)
  | read64 offset => exact congrArg Prod.snd (halves.read64 offset world allowed.inside).symm
  | read offset n => rfl
  | write8 offset val => rfl
  | write32 offset val => exact dev.write_one_word val offset world
  | write64 offset val => exact (halves.write64 offset val world allowed.inside).symm
  | write offset data => rfl
  | memset offset c n => exact dev.does_memset remote c n offset world

/-- A call that reads makes one operation, which returns the same bytes; the
operations of the others return nothing. -/
theorem InHalves.does_returns (halves : dev.InHalves) (remote : HwioDeviceRemote)
    {call : DevCall} (allowed : call.Allowed) (world : World) :
    if call.reads then ∃ op, remote.call call = [op] ∧ op.waits = true ∧
      (dev.does op world).1 = (dev.call call world).1
    else ∀ op ∈ remote.call call, op.waits = false := by
  cases call with
  | read8 offset => exact ⟨_, rfl, rfl, rfl⟩
  | read32 offset => exact ⟨_, rfl, rfl, congrArg Prod.fst (dev.read_one_word offset world)⟩
  | read64 offset =>
      exact ⟨_, rfl, rfl, congrArg Prod.fst (halves.read64 offset world allowed.inside).symm⟩
  | read offset n => exact ⟨_, rfl, rfl, rfl⟩
  | write8 offset val => exact fun op member => List.mem_singleton.mp member ▸ rfl
  | write32 offset val => exact fun op member => List.mem_singleton.mp member ▸ rfl
  | write64 offset val => exact fun op member => List.mem_singleton.mp member ▸ rfl
  | write offset data => exact fun op member => List.mem_singleton.mp member ▸ rfl
  | memset offset c n => exact fun op member => (remote.memset_accesses c n offset op member).2

end IhwioDev

end Hwio
