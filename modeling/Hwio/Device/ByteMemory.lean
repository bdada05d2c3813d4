import Hwio.Device.IhwioDev
import Hwio.Library.Cells

/-!
Contract: the bulk accesses of `ihwio_dev.h` on devices that are memory.

Owns the effect of the loops on byte-addressed memory, the addresses that they
touch, and what a read finds after a write.

Does not own devices whose registers are no memory.
-/

namespace Hwio

open Library

variable {World : Type}

/-- The single accesses below `size` act on the bytes of a memory, words in the
byte order of the host. -/
structure ActsOnBytes (dev : IhwioDev World) (bytes : World → Cells) (size : Nat) : Prop where
  read8 : ∀ (offset : UInt32) (world : World), offset.toNat + 1 ≤ size →
    [(dev.read8 offset world).1] = (bytes world).slice offset.toNat 1 ∧
      bytes (dev.read8 offset world).2 = bytes world
  read32 : ∀ (offset : UInt32) (world : World), offset.toNat + 4 ≤ size →
    u32Bytes (dev.read32 offset world).1 = (bytes world).slice offset.toNat 4 ∧
      bytes (dev.read32 offset world).2 = bytes world
  write8 : ∀ (offset : UInt32) (value : UInt8) (world : World), offset.toNat + 1 ≤ size →
    bytes (dev.write8 offset value world) = (bytes world).put offset.toNat [value]
  write32 : ∀ (offset : UInt32) (value : UInt32) (world : World), offset.toNat + 4 ≤ size →
    bytes (dev.write32 offset value world) = (bytes world).put offset.toNat (u32Bytes value)

/-! ## The fill word -/

theorem fill32_toNat (c : UInt8) : (IhwioDev.fill32 c).toNat = 0x01010101 * c.toNat := by
  have small : c.toNat < 2 ^ 8 := c.toNat_lt
  have one : c.toUInt32.toNat = c.toNat := rfl
  have high : (c.toUInt32 <<< 8).toNat = c.toNat <<< 8 := by
    rw [UInt32.toNat_shiftLeft, one]
    show c.toNat <<< 8 % 2 ^ 32 = _
    rw [Nat.shiftLeft_eq]
    exact Nat.mod_eq_of_lt (by omega)
  have two : (c.toUInt32 ||| (c.toUInt32 <<< 8 ||| c.toUInt32)).toNat = 257 * c.toNat := by
    rw [UInt32.toNat_or, UInt32.toNat_or, high, one, Nat.or_comm, Nat.or_assoc, Nat.or_self,
      ← Nat.shiftLeft_add_eq_or_of_lt small, Nat.shiftLeft_eq]
    omega
  have both : ((c.toUInt32 ||| (c.toUInt32 <<< 8 ||| c.toUInt32)) <<< 16).toNat =
      (257 * c.toNat) <<< 16 := by
    rw [UInt32.toNat_shiftLeft, two]
    show (257 * c.toNat) <<< 16 % 2 ^ 32 = _
    rw [Nat.shiftLeft_eq]
    exact Nat.mod_eq_of_lt (by omega)
  have below : 257 * c.toNat < 2 ^ 16 := by omega
  rw [IhwioDev.fill32, UInt32.toNat_or, both, two, Nat.or_comm, ← Nat.shiftLeft_add_eq_or_of_lt below,
    Nat.shiftLeft_eq]
  omega

theorem fill32_eq (c : UInt8) : IhwioDev.fill32 c = loadU32 [c, c, c, c] 0 := by
  apply UInt32.toNat_inj.mp
  rw [fill32_toNat, loadU32_toNat]
  show _ = leNat [c, c, c, c]
  simp only [leNat]
  omega

namespace IhwioDev

variable (dev : IhwioDev World)

/-- `memset` is a `write` of copies of the byte. -/
theorem memset_eq_write (c : UInt8) (n : Nat) (offset : UInt32) (world : World) :
    dev.memset c n offset world = dev.write (List.replicate n c) offset world := by
  induction n using words_induction generalizing offset world with
  | short n less =>
      rw [memset_of_lt dev c less, write_of_lt dev (by rw [List.length_replicate]; exact less)]
  | word n before =>
      rw [memset, before, fill32_eq]
      rfl

end IhwioDev

/-! ## Effects -/

theorem toNat_ofNat_of_lt {address : Nat} (below : address < 2 ^ 32) :
    (UInt32.ofNat address).toNat = address := by
  rw [UInt32.toNat_ofNat']
  exact Nat.mod_eq_of_lt below

theorem ofNat_next_byte (address : Nat) : UInt32.ofNat address + 1 = UInt32.ofNat (address + 1) :=
  (UInt32.ofNat_add ..).symm

theorem ofNat_next_word (address : Nat) : UInt32.ofNat address + 4 = UInt32.ofNat (address + 4) :=
  (UInt32.ofNat_add ..).symm

section Effects

variable {dev : IhwioDev World} {bytes : World → Cells} {size : Nat}
  (acts : ActsOnBytes dev bytes size) (bounded : size ≤ 2 ^ 32)

include acts bounded

theorem ActsOnBytes.writeBytes (data : List Byte) {address : Nat}
    (inside : address + data.length ≤ size) (world : World) :
    bytes (dev.writeBytes data (UInt32.ofNat address) world) =
      (bytes world).put address data := by
  induction data generalizing address world with
  | nil => rw [IhwioDev.writeBytes, Cells.put_nil]
  | cons byte rest before =>
      rw [List.length_cons] at inside
      have here := @toNat_ofNat_of_lt address (by omega)
      have first := acts.write8 (UInt32.ofNat address) byte world (by omega)
      rw [here] at first
      rw [IhwioDev.writeBytes, ofNat_next_byte, before (by omega), first]
      exact Cells.put_append _ _ [byte] rest

/-- `write` puts the data, whatever its length modulo four. -/
theorem ActsOnBytes.write (data : List Byte) {address : Nat}
    (inside : address + data.length ≤ size) (world : World) :
    bytes (dev.write data (UInt32.ofNat address) world) = (bytes world).put address data := by
  induction count : data.length using IhwioDev.words_induction generalizing data address world with
  | short n less =>
      rw [IhwioDev.write_of_lt dev (by omega)]
      exact acts.writeBytes bounded data inside world
  | word n before =>
      match data, count with
      | a :: b :: c :: d :: rest, count =>
          simp only [List.length_cons] at inside count
          have here := @toNat_ofNat_of_lt address (by omega)
          have word : u32Bytes (loadU32 [a, b, c, d] 0) = [a, b, c, d] := u32Bytes_loadU32 _ _
          have first := acts.write32 (UInt32.ofNat address) (loadU32 [a, b, c, d] 0) world
            (by omega)
          rw [here, word] at first
          rw [IhwioDev.write, ofNat_next_word, before rest (by omega) _ (by omega), first]
          exact Cells.put_append _ _ [a, b, c, d] rest

theorem ActsOnBytes.readBytes (n : Nat) {address : Nat} (inside : address + n ≤ size)
    (world : World) :
    (dev.readBytes n (UInt32.ofNat address) world).1 = (bytes world).slice address n ∧
      bytes (dev.readBytes n (UInt32.ofNat address) world).2 = bytes world := by
  induction n generalizing address world with
  | zero => exact ⟨rfl, rfl⟩
  | succ n before =>
      have here := @toNat_ofNat_of_lt address (by omega)
      have ⟨value, same⟩ := acts.read8 (UInt32.ofNat address) world (by omega)
      have ⟨rest, still⟩ := @before (address + 1) (by omega)
        (dev.read8 (UInt32.ofNat address) world).2
      rw [here] at value
      rw [IhwioDev.readBytes, ofNat_next_byte, Nat.add_comm n 1, Cells.slice_add, ← value]
      rw [same] at rest still
      exact ⟨congrArg (_ :: ·) rest, still⟩

/-- `read` gives the slice and leaves the memory as it is. -/
theorem ActsOnBytes.read (n : Nat) {address : Nat} (inside : address + n ≤ size)
    (world : World) :
    (dev.read n (UInt32.ofNat address) world).1 = (bytes world).slice address n ∧
      bytes (dev.read n (UInt32.ofNat address) world).2 = bytes world := by
  induction n using IhwioDev.words_induction generalizing address world with
  | short n less =>
      rw [IhwioDev.read_of_lt dev less]
      exact acts.readBytes bounded n inside world
  | word n before =>
      have here := @toNat_ofNat_of_lt address (by omega)
      have ⟨value, same⟩ := acts.read32 (UInt32.ofNat address) world (by omega)
      have ⟨rest, still⟩ := @before (address + 4) (by omega)
        (dev.read32 (UInt32.ofNat address) world).2
      rw [here] at value
      rw [IhwioDev.read, ofNat_next_word, Nat.add_comm n 4, Cells.slice_add, ← value]
      rw [same] at rest still
      exact ⟨congrArg (_ ++ ·) rest, still⟩

end Effects

/-! ## Touched addresses -/

/-- One access: whether it writes, its offset and its width. -/
structure Touch where
  writes : Bool
  offset : UInt32
  width : Nat
deriving DecidableEq, Repr

/-- The addresses of an access. -/
def Touch.addresses (touch : Touch) : List Nat := List.range' touch.offset.toNat touch.width

/-- The device with a record of its accesses. -/
def IhwioDev.traced (dev : IhwioDev World) : IhwioDev (World × List Touch) where
  read8 offset state :=
    let (value, world) := dev.read8 offset state.1
    (value, world, state.2 ++ [⟨false, offset, 1⟩])
  read32 offset state :=
    let (value, world) := dev.read32 offset state.1
    (value, world, state.2 ++ [⟨false, offset, 4⟩])
  read64 offset state :=
    let (value, world) := dev.read64 offset state.1
    (value, world, state.2 ++ [⟨false, offset, 8⟩])
  write8 offset value state :=
    (dev.write8 offset value state.1, state.2 ++ [⟨true, offset, 1⟩])
  write32 offset value state :=
    (dev.write32 offset value state.1, state.2 ++ [⟨true, offset, 4⟩])
  write64 offset value state :=
    (dev.write64 offset value state.1, state.2 ++ [⟨true, offset, 8⟩])

/-- The accesses of spans. -/
def touches (writes : Bool) (spans : List (UInt32 × Nat)) : List Touch :=
  spans.map fun span => ⟨writes, span.1, span.2⟩

namespace IhwioDev

variable (dev : IhwioDev World)

theorem readBytes_traced (n : Nat) (offset : UInt32) (world : World) (before : List Touch) :
    dev.traced.readBytes n offset (world, before) =
      ((dev.readBytes n offset world).1, (dev.readBytes n offset world).2,
        before ++ touches false (byteSpans n offset)) := by
  induction n generalizing offset world before with
  | zero => rw [readBytes, readBytes, byteSpans, touches, List.map_nil, List.append_nil]
  | succ n inductionHypothesis =>
      rw [readBytes, readBytes, byteSpans]
      simp only [traced] at inductionHypothesis ⊢
      rw [inductionHypothesis]
      simp only [touches, List.map_cons, List.append_assoc, List.singleton_append]

theorem read_traced (n : Nat) (offset : UInt32) (world : World) (before : List Touch) :
    dev.traced.read n offset (world, before) =
      ((dev.read n offset world).1, (dev.read n offset world).2,
        before ++ touches false (spans n offset)) := by
  induction n using words_induction generalizing offset world before with
  | short n less =>
      rw [read_of_lt _ less, read_of_lt _ less, spans_of_lt less]
      exact dev.readBytes_traced n offset world before
  | word n inductionHypothesis =>
      rw [read, read, spans]
      simp only [traced] at inductionHypothesis ⊢
      rw [inductionHypothesis]
      simp only [touches, List.map_cons, List.append_assoc, List.singleton_append]

theorem writeBytes_traced (data : List Byte) (offset : UInt32) (world : World)
    (before : List Touch) :
    dev.traced.writeBytes data offset (world, before) =
      (dev.writeBytes data offset world,
        before ++ touches true (byteSpans data.length offset)) := by
  induction data generalizing offset world before with
  | nil => rw [writeBytes, writeBytes, List.length_nil, byteSpans, touches, List.map_nil,
      List.append_nil]
  | cons byte rest inductionHypothesis =>
      rw [writeBytes, writeBytes, List.length_cons, byteSpans]
      show dev.traced.writeBytes rest (offset + 1)
        (dev.write8 offset byte world, before ++ [⟨true, offset, 1⟩]) = _
      rw [inductionHypothesis, List.append_assoc]
      rfl

theorem write_traced (data : List Byte) (offset : UInt32) (world : World) (before : List Touch) :
    dev.traced.write data offset (world, before) =
      (dev.write data offset world, before ++ touches true (spans data.length offset)) := by
  induction count : data.length using words_induction
    generalizing data offset world before with
  | short n less =>
      rw [write_of_lt _ (by omega), write_of_lt _ (by omega), spans_of_lt less, ← count]
      exact dev.writeBytes_traced data offset world before
  | word n inductionHypothesis =>
      match data, count with
      | a :: b :: c :: d :: rest, count =>
          simp only [List.length_cons] at count
          rw [write, write, spans]
          show dev.traced.write rest (offset + 4)
            (dev.write32 offset (loadU32 [a, b, c, d] 0) world, before ++ [⟨true, offset, 4⟩]) = _
          rw [inductionHypothesis rest _ _ _ (by omega), List.append_assoc]
          rfl

theorem byteSpans_addresses (writes : Bool) (n : Nat) {address : Nat}
    (inside : address + n ≤ 2 ^ 32) :
    (touches writes (byteSpans n (UInt32.ofNat address))).flatMap Touch.addresses =
      List.range' address n := by
  induction n generalizing address with
  | zero => rfl
  | succ n before =>
      have here := @toNat_ofNat_of_lt address (by omega)
      have rest := @before (address + 1) (by omega)
      rw [byteSpans, ofNat_next_byte, touches, List.map_cons, List.flatMap_cons,
        ← touches, rest, Touch.addresses, here, Nat.add_comm n 1]
      exact List.range'_append_1

/-- The loops touch every address once, from the lowest up. -/
theorem spans_addresses (writes : Bool) (n : Nat) {address : Nat}
    (inside : address + n ≤ 2 ^ 32) :
    (touches writes (spans n (UInt32.ofNat address))).flatMap Touch.addresses =
      List.range' address n := by
  induction n using words_induction generalizing address with
  | short n less =>
      rw [spans_of_lt less]
      exact byteSpans_addresses writes n inside
  | word n before =>
      have here := @toNat_ofNat_of_lt address (by omega)
      have rest := @before (address + 4) (by omega)
      rw [spans, ofNat_next_word, touches, List.map_cons, List.flatMap_cons,
        ← touches, rest, Touch.addresses, here, Nat.add_comm n 4]
      exact List.range'_append_1

theorem writes_of_mem_touches {writes : Bool} {spans : List (UInt32 × Nat)} {touch : Touch}
    (member : touch ∈ touches writes spans) : touch.writes = writes := by
  have ⟨span, _, same⟩ := List.mem_map.mp member
  rw [← same]

end IhwioDev

/-! ## Transfers -/

/-- On byte-addressed memory, the bulk accesses do what their bytewise loops do:
`write` and `memset` change the bytes of the transfer, `read` gives them, and each
of them is touched once, from the lowest address up.  So a read finds what was
written, and `memset` writes copies of its byte. -/
theorem bulk_transfers_bytewise {dev : IhwioDev World} {bytes : World → Cells} {size : Nat}
    (acts : ActsOnBytes dev bytes size) (bounded : size ≤ 2 ^ 32) {offset : UInt32} {n : Nat}
    (inside : offset.toNat + n ≤ size) {data : List Byte} (length : data.length = n) (c : Byte)
    (world : World) (log : List Touch) :
    (bytes (dev.write data offset world) = (bytes world).put offset.toNat data ∧
      bytes (dev.memset c n offset world) =
        (bytes world).put offset.toNat (List.replicate n c) ∧
      (dev.read n offset world).1 = (bytes world).slice offset.toNat n ∧
      bytes (dev.read n offset world).2 = bytes world) ∧
    (bytes (dev.write data offset world) = bytes (dev.writeBytes data offset world) ∧
      bytes (dev.memset c n offset world) =
        bytes (dev.writeBytes (List.replicate n c) offset world) ∧
      (dev.read n offset world).1 = (dev.readBytes n offset world).1 ∧
      bytes (dev.read n offset world).2 = bytes (dev.readBytes n offset world).2) ∧
    (∃ reads writes : List Touch,
      dev.traced.read n offset (world, log) =
        ((dev.read n offset world).1, (dev.read n offset world).2, log ++ reads) ∧
      dev.traced.write data offset (world, log) = (dev.write data offset world, log ++ writes) ∧
      dev.traced.memset c n offset (world, log) =
        (dev.memset c n offset world, log ++ writes) ∧
      (∀ touch ∈ reads, touch.writes = false) ∧ (∀ touch ∈ writes, touch.writes = true) ∧
      reads.flatMap Touch.addresses = List.range' offset.toNat n ∧
      writes.flatMap Touch.addresses = List.range' offset.toNat n) ∧
    (dev.read n offset (dev.write data offset world)).1 = data ∧
    dev.memset c n offset world = dev.write (List.replicate n c) offset world := by
  have place : offset = UInt32.ofNat offset.toNat := UInt32.ofNat_toNat.symm
  have copies : (List.replicate n c).length = n := List.length_replicate
  have written := @ActsOnBytes.write _ _ _ _ acts bounded data offset.toNat (by omega)
  have slow := @ActsOnBytes.writeBytes _ _ _ _ acts bounded data offset.toNat (by omega)
  have filled := @ActsOnBytes.write _ _ _ _ acts bounded (List.replicate n c) offset.toNat
    (by omega)
  have slowly := @ActsOnBytes.writeBytes _ _ _ _ acts bounded (List.replicate n c) offset.toNat
    (by omega)
  have found := @ActsOnBytes.read _ _ _ _ acts bounded n offset.toNat inside
  have bytewise := @ActsOnBytes.readBytes _ _ _ _ acts bounded n offset.toNat inside
  have addresses := fun writes => @IhwioDev.spans_addresses writes n offset.toNat (by omega)
  rw [← place] at written slow filled slowly found bytewise addresses
  refine ⟨⟨written world, ?_, found world⟩, ⟨?_, ?_, ?_, ?_⟩, ?_, ?_,
    dev.memset_eq_write c n offset world⟩
  · rw [dev.memset_eq_write]
    exact filled world
  · rw [written, slow]
  · rw [dev.memset_eq_write, filled, slowly]
  · rw [(found world).1, (bytewise world).1]
  · rw [(found world).2, (bytewise world).2]
  · refine ⟨touches false (IhwioDev.spans n offset), touches true (IhwioDev.spans n offset),
      dev.read_traced n offset world log, ?_, ?_, fun _ => IhwioDev.writes_of_mem_touches,
      fun _ => IhwioDev.writes_of_mem_touches, addresses false, addresses true⟩
    · rw [dev.write_traced, length]
    · rw [dev.traced.memset_eq_write, dev.memset_eq_write, dev.write_traced, copies]
  · rw [(found _).1, written, ← length, Cells.slice_put]

/-- A memory as a device. -/
def memoryDevice : IhwioDev Cells where
  read8 offset cells := (cells offset.toNat, cells)
  read32 offset cells := (loadU32 (cells.slice offset.toNat 4) 0, cells)
  read64 offset cells := (UInt64.ofNat (leNat (cells.slice offset.toNat 8)), cells)
  write8 offset value cells := cells.put offset.toNat [value]
  write32 offset value cells := cells.put offset.toNat (u32Bytes value)
  write64 offset value cells := cells.put offset.toNat (leBytes 8 value.toNat)

theorem memoryDevice_acts : ActsOnBytes memoryDevice id (2 ^ 32) where
  read8 offset cells _ := ⟨rfl, rfl⟩
  read32 offset cells _ := by
    refine ⟨?_, rfl⟩
    show u32Bytes (loadU32 (cells.slice offset.toNat 4) 0) = _
    rw [u32Bytes_loadU32]
    have whole := load_whole (cells.slice offset.toNat 4)
    rw [Cells.slice_length] at whole
    exact whole
  write8 _ _ _ _ := rfl
  write32 _ _ _ _ := rfl

/-- Seven bytes at an odd offset are read as they were written. -/
theorem seven_bytes_transferred :
    (memoryDevice.read 7 3 (memoryDevice.write [1, 2, 3, 4, 5, 6, 7] 3 fun _ => 0)).1 =
      [1, 2, 3, 4, 5, 6, 7] :=
  (@bulk_transfers_bytewise _ memoryDevice id _ memoryDevice_acts (Nat.le_refl _) 3 7 (by decide)
    [1, 2, 3, 4, 5, 6, 7] rfl 0 (fun _ => 0) []).2.2.2.1

end Hwio
