import Hwio.Library.Memory

/-!
Contract: the bulk accesses of `ihwio_dev.h`, made of single ones.

Owns the loops of `read`, `memset` and `write` over the virtual accessors, and
the spans of addresses that these loops visit.

Does not own any device.  Words are in the byte order of the host, which is
little-endian.
-/

namespace Hwio

open Library

/-- The single accesses of `ihwio_dev`, on the state of the world behind it. -/
structure IhwioDev (World : Type) where
  read8 : UInt32 → World → UInt8 × World
  read32 : UInt32 → World → UInt32 × World
  read64 : UInt32 → World → UInt64 × World
  write8 : UInt32 → UInt8 → World → World
  write32 : UInt32 → UInt32 → World → World
  write64 : UInt32 → UInt64 → World → World

namespace IhwioDev

variable {World : Type} (dev : IhwioDev World)

/-! ## The loops -/

/-- The bytes behind the last whole word of `read`. -/
def readBytes : Nat → UInt32 → World → List Byte × World
  | 0, _, world => ([], world)
  | n + 1, offset, world =>
      let byte := dev.read8 offset world
      let rest := readBytes n (offset + 1) byte.2
      (byte.1 :: rest.1, rest.2)

/-- `ihwio_dev::read` of `n` bytes -/
def read : Nat → UInt32 → World → List Byte × World
  | n + 4, offset, world =>
      let word := dev.read32 offset world
      let rest := read n (offset + 4) word.2
      (u32Bytes word.1 ++ rest.1, rest.2)
  | n, offset, world => dev.readBytes n offset world

/-- The bytes behind the last whole word of `write`. -/
def writeBytes : List Byte → UInt32 → World → World
  | [], _, world => world
  | byte :: rest, offset, world => writeBytes rest (offset + 1) (dev.write8 offset byte world)

/-- `ihwio_dev::write` -/
def write : List Byte → UInt32 → World → World
  | a :: b :: c :: d :: rest, offset, world =>
      write rest (offset + 4) (dev.write32 offset (loadU32 [a, b, c, d] 0) world)
  | data, offset, world => dev.writeBytes data offset world

/-- The word of `memset`, which is the byte four times. -/
def fill32 (c : UInt8) : UInt32 :=
  let fill := c.toUInt32
  let fill := fill ||| (c.toUInt32 <<< 8 ||| c.toUInt32)
  fill ||| fill <<< 16

/-- `ihwio_dev::memset` of `n` bytes -/
def memset (c : UInt8) : Nat → UInt32 → World → World
  | n + 4, offset, world => memset c n (offset + 4) (dev.write32 offset (fill32 c) world)
  | n, offset, world => dev.writeBytes (List.replicate n c) offset world

/-! ## Spans -/

/-- The spans of single bytes. -/
def byteSpans : Nat → UInt32 → List (UInt32 × Nat)
  | 0, _ => []
  | n + 1, offset => (offset, 1) :: byteSpans n (offset + 1)

/-- The addresses and widths that the loops visit for `n` bytes. -/
def spans : Nat → UInt32 → List (UInt32 × Nat)
  | n + 4, offset => (offset, 4) :: spans n (offset + 4)
  | n, offset => byteSpans n offset

theorem spans_of_lt {n : Nat} (short : n < 4) (offset : UInt32) :
    spans n offset = byteSpans n offset := by
  match n, short with
  | 0, _ => rfl
  | 1, _ => rfl
  | 2, _ => rfl
  | 3, _ => rfl

theorem read_of_lt {n : Nat} (short : n < 4) (offset : UInt32) (world : World) :
    dev.read n offset world = dev.readBytes n offset world := by
  match n, short with
  | 0, _ => rfl
  | 1, _ => rfl
  | 2, _ => rfl
  | 3, _ => rfl

theorem memset_of_lt (c : UInt8) {n : Nat} (short : n < 4) (offset : UInt32) (world : World) :
    dev.memset c n offset world = dev.writeBytes (List.replicate n c) offset world := by
  match n, short with
  | 0, _ => rfl
  | 1, _ => rfl
  | 2, _ => rfl
  | 3, _ => rfl

theorem write_of_lt {data : List Byte} (short : data.length < 4) (offset : UInt32)
    (world : World) : dev.write data offset world = dev.writeBytes data offset world := by
  match data, short with
  | [], _ => rfl
  | [_], _ => rfl
  | [_, _], _ => rfl
  | [_, _, _], _ => rfl

/-- Any bytes are words and fewer than four bytes behind them. -/
theorem words_induction {motive : Nat → Prop} (short : ∀ n, n < 4 → motive n)
    (word : ∀ n, motive n → motive (n + 4)) (n : Nat) : motive n := by
  induction n using Nat.strongRecOn with
  | ind n inductionHypothesis =>
      by_cases less : n < 4
      · exact short n less
      · obtain ⟨rest, rfl⟩ := Nat.exists_eq_add_of_le' (Nat.le_of_not_lt less)
        exact word rest (inductionHypothesis rest (by omega))

theorem readBytes_length (n : Nat) (offset : UInt32) (world : World) :
    (dev.readBytes n offset world).1.length = n := by
  induction n generalizing offset world with
  | zero => rfl
  | succ n inductionHypothesis =>
      rw [readBytes, List.length_cons, inductionHypothesis]

theorem read_length (n : Nat) (offset : UInt32) (world : World) :
    (dev.read n offset world).1.length = n := by
  induction n using words_induction generalizing offset world with
  | short n less =>
      rw [read_of_lt dev less]
      exact readBytes_length dev n offset world
  | word n inductionHypothesis =>
      rw [read, List.length_append, u32Bytes_length, inductionHypothesis]
      omega

/-! ## Spans inside a window -/

/-- Some bytes lie in a window when all of their addresses do. -/
def Fits (size : UInt32) (offset : UInt32) (n : Nat) : Prop :=
  ∀ i < n, offset.toNat + i < size.toNat

instance (size offset : UInt32) (n : Nat) : Decidable (Fits size offset n) :=
  inferInstanceAs (Decidable (∀ i < n, _))

theorem fits_iff (size offset : UInt32) (n : Nat) :
    Fits size offset n ↔ n = 0 ∨ offset.toNat + n ≤ size.toNat := by
  constructor
  · intro fits
    by_cases empty : n = 0
    · exact Or.inl empty
    · have last := fits (n - 1) (by omega)
      right
      omega
  · intro inside i below
    omega

theorem byteSpans_inside_iff (size offset : UInt32) (n : Nat) :
    (∀ span ∈ byteSpans n offset, span.1.toNat + span.2 ≤ size.toNat) ↔ Fits size offset n := by
  rw [fits_iff]
  induction n generalizing offset with
  | zero => simp [byteSpans]
  | succ n inductionHypothesis =>
      have below := size.toNat_lt
      rw [byteSpans, List.forall_mem_cons, inductionHypothesis, UInt32.toNat_add]
      simp only [UInt32.reduceToNat, Nat.succ_ne_zero, false_or]
      omega

/-- All spans of the loops lie in a window just when all bytes do: a loop that
wraps around 2^32 passes the end of every window first. -/
theorem spans_inside_iff (size offset : UInt32) (n : Nat) :
    (∀ span ∈ spans n offset, span.1.toNat + span.2 ≤ size.toNat) ↔ Fits size offset n := by
  induction n using words_induction generalizing offset with
  | short n less =>
      rw [spans_of_lt less]
      exact byteSpans_inside_iff size offset n
  | word n inductionHypothesis =>
      have below := size.toNat_lt
      rw [spans, List.forall_mem_cons, inductionHypothesis, fits_iff, fits_iff, UInt32.toNat_add]
      simp only [UInt32.reduceToNat, Nat.succ_ne_zero, false_or]
      omega

end IhwioDev

end Hwio
