import Hwio.Device.ByteMemory
import Hwio.Device.Mmap

/-!
Contract: the calls of `ihwio_dev.h`, as a caller makes them on a device.

Owns what each call does on the accessors of a device, the bytes that it
returns, and devices whose 64-bit accesses are two 32-bit ones.

Does not own where the device is.  A value is returned as its bytes, in the byte
order of the host.
-/

namespace Hwio

open Library

variable {World : Type}

/-- A call of `ihwio_dev` -/
inductive DevCall where
  | read8 (offset : UInt32)
  | read32 (offset : UInt32)
  | read64 (offset : UInt32)
  | read (offset : UInt32) (n : Nat)
  | write8 (offset : UInt32) (val : UInt8)
  | write32 (offset : UInt32) (val : UInt32)
  | write64 (offset : UInt32) (val : UInt64)
  | write (offset : UInt32) (data : List Byte)
  | memset (offset : UInt32) (c : UInt8) (n : Nat)
deriving DecidableEq, Repr

namespace DevCall

def offset : DevCall → UInt32
  | .read8 offset | .read32 offset | .read64 offset | .read offset _ | .write8 offset _
  | .write32 offset _ | .write64 offset _ | .write offset _ | .memset offset _ _ => offset

/-- The number of bytes that are read or written. -/
def size : DevCall → Nat
  | .read8 _ | .write8 _ _ => 1
  | .read32 _ | .write32 _ _ => 4
  | .read64 _ | .write64 _ _ => 8
  | .read _ n | .memset _ _ n => n
  | .write _ data => data.length

def reads : DevCall → Bool
  | .read8 _ | .read32 _ | .read64 _ | .read _ _ => true
  | _ => false

end DevCall

namespace IhwioDev

/-- What a call does on a device, and the bytes that it returns. -/
def call (dev : IhwioDev World) : DevCall → World → List Byte × World
  | .read8 offset, world => ([(dev.read8 offset world).1], (dev.read8 offset world).2)
  | .read32 offset, world => (u32Bytes (dev.read32 offset world).1, (dev.read32 offset world).2)
  | .read64 offset, world =>
      (leBytes 8 (dev.read64 offset world).1.toNat, (dev.read64 offset world).2)
  | .read offset n, world => dev.read n offset world
  | .write8 offset val, world => ([], dev.write8 offset val world)
  | .write32 offset val, world => ([], dev.write32 offset val world)
  | .write64 offset val, world => ([], dev.write64 offset val world)
  | .write offset data, world => ([], dev.write data offset world)
  | .memset offset c n, world => ([], dev.memset c n offset world)

/-! ## Accesses in two halves -/

/-- A 64-bit access is one of the low half and one of the high half, in this
order. -/
structure InHalves (dev : IhwioDev World) : Prop where
  read64 : ∀ (offset : UInt32) (world : World), offset.toNat + 8 ≤ 2 ^ 32 →
    (leBytes 8 (dev.read64 offset world).1.toNat, (dev.read64 offset world).2) =
      dev.read 8 offset world
  write64 : ∀ (offset : UInt32) (val : UInt64) (world : World), offset.toNat + 8 ≤ 2 ^ 32 →
    dev.write64 offset val world = dev.write (leBytes 8 val.toNat) offset world

variable (dev : IhwioDev World)

/-- A word is written in one access. -/
theorem write_word (word : UInt32) (behind : List Byte) (offset : UInt32) (world : World) :
    dev.write (u32Bytes word ++ behind) offset world =
      dev.write behind (offset + 4) (dev.write32 offset word world) := by
  have whole : loadU32 (u32Bytes word) 0 = word := loadU32_of_load (load_whole _)
  have length := u32Bytes_length word
  generalize u32Bytes word = bytes at whole length
  match bytes, length with
  | [a, b, c, d], _ =>
      rw [List.cons_append, List.cons_append, List.cons_append, List.cons_append, List.nil_append,
        write, whole]

theorem write_one_word (word : UInt32) (offset : UInt32) (world : World) :
    dev.write (u32Bytes word) offset world = dev.write32 offset word world := by
  have written := dev.write_word word [] offset world
  rw [List.append_nil] at written
  exact written

theorem read_one_word (offset : UInt32) (world : World) :
    dev.read 4 offset world =
      (u32Bytes (dev.read32 offset world).1, (dev.read32 offset world).2) := by
  rw [read, read, readBytes, List.append_nil]
  simp

end IhwioDev

/-- Only the low bits of a number are in its bytes. -/
theorem leBytes_mod (width value : Nat) :
    leBytes width (value % 256 ^ width) = leBytes width value := by
  apply leNat_inj (by rw [leBytes_length, leBytes_length])
  rw [leNat_leBytes, leNat_leBytes, Nat.mod_mod]

/-- The bytes of a word are those of its halves. -/
theorem u64_halves (val : UInt64) :
    leBytes 8 val.toNat = u32Bytes val.toUInt32 ++ u32Bytes (val >>> 32).toUInt32 := by
  have low : val.toUInt32.toNat = val.toNat % 256 ^ 4 := UInt64.toNat_toUInt32 val
  have high : (val >>> 32).toUInt32.toNat = val.toNat / 256 ^ 4 % 256 ^ 4 := by
    rw [UInt64.toNat_toUInt32, UInt64.toNat_shiftRight]
    exact congrArg (· % 2 ^ 32) (Nat.shiftRight_eq_div_pow ..)
  rw [u32Bytes, u32Bytes, low, high, leBytes_mod, leBytes_mod]
  exact leBytes_add 4 4 val.toNat

/-- The halves of a word that was put together are those it was made of. -/
theorem u64_joined (d tmp : UInt32) :
    leBytes 8 (d.toUInt64 ||| tmp.toUInt64 <<< 32).toNat = u32Bytes d ++ u32Bytes tmp := by
  have small : d.toNat < 2 ^ 32 := d.toNat_lt
  have above : tmp.toNat < 2 ^ 32 := tmp.toNat_lt
  have shifted : (tmp.toUInt64 <<< 32).toNat = tmp.toNat <<< 32 := by
    rw [UInt64.toNat_shiftLeft]
    show tmp.toNat <<< 32 % 2 ^ 64 = _
    rw [Nat.shiftLeft_eq]
    exact Nat.mod_eq_of_lt (by omega)
  have joined : (d.toUInt64 ||| tmp.toUInt64 <<< 32).toNat = tmp.toNat * 2 ^ 32 + d.toNat := by
    rw [UInt64.toNat_or, shifted, Nat.or_comm]
    show tmp.toNat <<< 32 ||| d.toNat = _
    rw [← Nat.shiftLeft_add_eq_or_of_lt small, Nat.shiftLeft_eq]
  have split : leBytes 8 (tmp.toNat * 2 ^ 32 + d.toNat) =
      leBytes 4 (tmp.toNat * 2 ^ 32 + d.toNat) ++
        leBytes 4 ((tmp.toNat * 2 ^ 32 + d.toNat) / 256 ^ 4) := leBytes_add 4 4 _
  have low : (tmp.toNat * 2 ^ 32 + d.toNat) % 256 ^ 4 = d.toNat := by omega
  have high : (tmp.toNat * 2 ^ 32 + d.toNat) / 256 ^ 4 = tmp.toNat := by omega
  rw [joined, split, high, ← leBytes_mod 4 (tmp.toNat * 2 ^ 32 + d.toNat), low, u32Bytes, u32Bytes]

namespace HwioDeviceMmap

/-- Without a carry into the upper bits, the next word lies behind this one. -/
theorem position_add (mmap : HwioDeviceMmap) {offset : UInt32} (inside : offset.toNat + 8 ≤ 2 ^ 32) :
    mmap.position (offset + 4) = mmap.position offset + 4 := by
  rw [position, position, UInt32.toNat_add]
  simp only [UInt32.reduceToNat]
  omega

/-- The accessors of a mapped device take a 64-bit word in two halves. -/
theorem device_inHalves (mmap : HwioDeviceMmap) (memory : MappedMemory World) (dev : DevPtr) :
    (mmap.device memory dev).InHalves where
  read64 offset observed inside := by
    have next := mmap.position_add inside
    simp only [device, IhwioDev.read, IhwioDev.readBytes, next, u64_joined, List.append_nil]
  write64 offset val observed inside := by
    have next := mmap.position_add inside
    rw [u64_halves, IhwioDev.write_word, IhwioDev.write_one_word]
    simp only [device, next]

end HwioDeviceMmap

end Hwio
