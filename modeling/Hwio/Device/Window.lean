import Hwio.Device.Calls

/-!
Contract: the window of pages that `hwio_device_mmap.cpp` maps for a device.

Owns the constructor on a machine with a given width of `size_t`, and the place
of each access of a call in the mapping.

Does not own `attach`.
-/

namespace Hwio

open Library

variable {World : Type}

namespace HwioDeviceMmap

/-! ## The constructor -/

/-- `addr_space_size` where `size_t` has `bits` bits: `on_bus_size`, at least a
page, and one page more. -/
def addrSpaceSizeOn (bits : Nat) (pageSize size : UInt32) : Nat :=
  let s := size.toNat % 2 ^ bits
  let s := if s < pageSize.toNat then pageSize.toNat else s
  if s > s / pageSize.toNat then (s + pageSize.toNat) % 2 ^ bits else s

/-- The constructor where `size_t` has `bits` bits. -/
def newOn (bits : Nat) (pageSize baseAddr size : UInt32) (memFileName : Text) : HwioDeviceMmap :=
  { new pageSize baseAddr size memFileName with addrSpaceSize := addrSpaceSizeOn bits pageSize size }

/-! ## Pages -/

/-- What a mask keeps and what its complement keeps make up the address. -/
theorem toNat_mask_add (base mask : UInt32) :
    (base &&& ~~~mask).toNat + (base &&& mask).toNat = base.toNat := by
  have apart : (base.toBitVec &&& ~~~mask.toBitVec) &&& (base.toBitVec &&& mask.toBitVec) =
      0#32 := by
    ext i
    simp only [BitVec.getElem_and, BitVec.getElem_not, BitVec.getElem_zero]
    grind
  have either : (base.toBitVec &&& ~~~mask.toBitVec) ||| (base.toBitVec &&& mask.toBitVec) =
      base.toBitVec := by
    ext i
    simp only [BitVec.getElem_or, BitVec.getElem_and, BitVec.getElem_not]
    grind
  calc (base &&& ~~~mask).toNat + (base &&& mask).toNat
      = ((base.toBitVec &&& ~~~mask.toBitVec) + (base.toBitVec &&& mask.toBitVec)).toNat :=
        (BitVec.toNat_add_of_and_eq_zero apart).symm
    _ = base.toNat := by
        rw [BitVec.add_eq_or_of_and_eq_zero _ _ apart, either]
        rfl

/-- A page size is a power of two of at most 30 bits. -/
def IsPageSize (pageSize : UInt32) : Prop :=
  ∃ k, 1 ≤ k ∧ k ≤ 30 ∧ pageSize.toNat = 2 ^ k

theorem IsPageSize.bounds {pageSize : UInt32} (page : IsPageSize pageSize) :
    2 ≤ pageSize.toNat ∧ pageSize.toNat ≤ 2 ^ 30 := by
  obtain ⟨k, positive, bounded, power⟩ := page
  rw [power]
  exact ⟨Nat.le_self_pow (Nat.ne_of_gt positive) 2, Nat.pow_le_pow_right Nat.two_pos bounded⟩

theorem toNat_and_page {pageSize : UInt32} (page : IsPageSize pageSize) (base : UInt32) :
    (base &&& (pageSize - 1)).toNat = base.toNat % pageSize.toNat := by
  have positive := page.bounds.1
  obtain ⟨k, _, _, power⟩ := page
  have mask : (pageSize - 1).toNat = 2 ^ k - 1 := by
    rw [UInt32.toNat_sub_of_le _ _ (UInt32.le_iff_toNat_le.mpr (by simp; omega)), power]
    rfl
  rw [UInt32.toNat_and, mask, Nat.and_two_pow_sub_one_eq_mod, power]

variable {pageSize baseAddr size : UInt32}

theorem pageAddr_new (page : IsPageSize pageSize) (memFileName : Text) :
    (new pageSize baseAddr size memFileName).pageAddr.toNat =
      baseAddr.toNat - baseAddr.toNat % pageSize.toNat := by
  have whole := toNat_mask_add baseAddr (pageSize - 1)
  rw [toNat_and_page page] at whole
  change (baseAddr &&& ~~~(pageSize - 1)).toNat = _
  omega

theorem pageOffset_new (page : IsPageSize pageSize) (memFileName : Text) :
    (new pageSize baseAddr size memFileName).pageOffset.toNat =
      baseAddr.toNat % pageSize.toNat := by
  have rounded := @pageAddr_new pageSize baseAddr size page memFileName
  have below : baseAddr.toNat % pageSize.toNat ≤ baseAddr.toNat := Nat.mod_le _ _
  change (baseAddr - (new pageSize baseAddr size memFileName).pageAddr).toNat = _
  rw [UInt32.toNat_sub_of_le _ _ (UInt32.le_iff_toNat_le.mpr (by omega)), rounded]
  omega

theorem rounded_eq_max (size pageSize : UInt32) :
    (if size.toNat < pageSize.toNat then pageSize.toNat else size.toNat) =
      max size.toNat pageSize.toNat := by
  split <;> omega

/-- The second test of the constructor never fails. -/
theorem IsPageSize.tested (page : IsPageSize pageSize) (size : UInt32) :
    max size.toNat pageSize.toNat > max size.toNat pageSize.toNat / pageSize.toNat := by
  obtain ⟨two, _⟩ := page.bounds
  exact Nat.div_lt_self (by omega) two

theorem addrSpaceSize_new (page : IsPageSize pageSize) (memFileName : Text) :
    (new pageSize baseAddr size memFileName).addrSpaceSize =
      max size.toNat pageSize.toNat + pageSize.toNat := by
  simp only [new, rounded_eq_max]
  exact if_pos (page.tested size)

/-- There is always one page more than what the size needs. -/
theorem addrSpaceSizeOn_eq {bits : Nat} (width : 32 ≤ bits) (page : IsPageSize pageSize)
    (small : size.toNat < 2 ^ 32 - pageSize.toNat) :
    addrSpaceSizeOn bits pageSize size =
      max size.toNat pageSize.toNat + pageSize.toNat := by
  obtain ⟨two, bounded⟩ := page.bounds
  have wide : 2 ^ 32 ≤ 2 ^ bits := Nat.pow_le_pow_right (by decide) width
  have kept : size.toNat % 2 ^ bits = size.toNat := Nat.mod_eq_of_lt (by omega)
  simp only [addrSpaceSizeOn, kept, rounded_eq_max]
  rw [if_pos (page.tested size), Nat.mod_eq_of_lt]
  omega

/-- Where no size wraps around, the width of `size_t` is nothing that the
device depends on. -/
theorem newOn_eq_new {bits : Nat} (width : 32 ≤ bits) (page : IsPageSize pageSize)
    (small : size.toNat < 2 ^ 32 - pageSize.toNat) (memFileName : Text) :
    newOn bits pageSize baseAddr size memFileName = new pageSize baseAddr size memFileName := by
  rw [newOn, addrSpaceSizeOn_eq width page small, ← addrSpaceSize_new page memFileName]

end HwioDeviceMmap

/-! ## The place of an access -/

namespace DevCall

/-- The addresses and widths of the accesses of a call. -/
def spans : DevCall → List (UInt32 × Nat)
  | .read8 offset | .write8 offset _ => [(offset, 1)]
  | .read32 offset | .write32 offset _ => [(offset, 4)]
  | .read64 offset | .write64 offset _ => [(offset, 4), (offset + 4, 4)]
  | .read offset n | .memset offset _ n => IhwioDev.spans n offset
  | .write offset data => IhwioDev.spans data.length offset

/-- A call that lies in a device has all of its accesses there. -/
theorem spans_inside {call : DevCall} {size : UInt32}
    (inside : call.offset.toNat + call.size ≤ size.toNat) :
    ∀ span ∈ call.spans, span.1.toNat + span.2 ≤ size.toNat := by
  have below := size.toNat_lt
  have halves : ∀ offset : UInt32, offset.toNat + 8 ≤ size.toNat →
      ∀ span ∈ [(offset, 4), (offset + 4, 4)], span.1.toNat + span.2 ≤ size.toNat := by
    intro offset fits
    have upper : (offset + 4).toNat = offset.toNat + 4 := by
      rw [UInt32.toNat_add]
      exact Nat.mod_eq_of_lt (by simp; omega)
    rw [List.forall_mem_cons, List.forall_mem_singleton]
    simp only [upper]
    omega
  have bulk : ∀ (offset : UInt32) (n : Nat), offset.toNat + n ≤ size.toNat →
      ∀ span ∈ IhwioDev.spans n offset, span.1.toNat + span.2 ≤ size.toNat :=
    fun offset n fits =>
      (IhwioDev.spans_inside_iff size offset n).mpr
        ((IhwioDev.fits_iff size offset n).mpr (Or.inr fits))
  cases call with
  | read8 offset | write8 offset val => exact List.forall_mem_singleton.mpr inside
  | read32 offset | write32 offset val => exact List.forall_mem_singleton.mpr inside
  | read64 offset | write64 offset val => exact halves offset inside
  | read offset n | memset offset c n => exact bulk offset n inside
  | write offset data => exact bulk offset data.length inside

end DevCall

namespace HwioDeviceMmap

variable (mmap : HwioDeviceMmap) (memory : MappedMemory World) (dev : DevPtr)

/-- A `memset` visits the spans of its loop. -/
theorem memset_accessed (c : UInt8) (n : Nat) (offset : UInt32) (observed : Observed World) :
    mmap.Accessed dev (IhwioDev.spans n offset) observed
      ((mmap.device memory dev).memset c n offset observed) := by
  induction n using IhwioDev.words_induction generalizing offset observed with
  | short n less =>
      have bytes := writeBytes_accessed mmap memory dev (List.replicate n c) offset observed
      rw [List.length_replicate] at bytes
      rw [IhwioDev.memset_of_lt _ c less, IhwioDev.spans_of_lt less]
      exact bytes
  | word n inductionHypothesis => exact .cons rfl rfl (inductionHypothesis _ _)

/-- A call whose addresses do not wrap around visits its spans. -/
theorem call_accessed {call : DevCall} (fits : call.offset.toNat + call.size ≤ 2 ^ 32)
    (observed : Observed World) :
    mmap.Accessed dev call.spans observed ((mmap.device memory dev).call call observed).2 := by
  have upper : ∀ offset : UInt32, offset.toNat + 8 ≤ 2 ^ 32 →
      mmap.position offset + 4 = mmap.position (offset + 4) := by
    intro offset fits
    unfold position
    rw [UInt32.toNat_add]
    simp only [UInt32.reduceToNat]
    omega
  cases call with
  | read8 offset | write8 offset val => exact .cons rfl rfl (.nil ..)
  | read32 offset | write32 offset val => exact .cons rfl rfl (.nil ..)
  | read64 offset | write64 offset val =>
      exact .cons rfl rfl
        (.cons rfl (congrArg (·, 4) (upper offset fits)) (.nil ..))
  | read offset n => exact read_accessed mmap memory dev n offset observed
  | write offset data => exact write_accessed mmap memory dev data offset observed
  | memset offset c n => exact memset_accessed mmap memory dev c n offset observed

/-- The accesses made on the way from a state to another are those of one
device, inside of its mapping. -/
def StaysMapped (before after : Observed World) : Prop :=
  ∃ accesses : List Access, after.accesses = before.accesses ++ accesses.map (dev, ·) ∧
    ∀ access ∈ accesses, access.span.1 + access.span.2 ≤ mmap.addrSpaceSize

theorem call_staysMapped (covered : mmap.pageOffset.toNat + mmap.onBusSize.toNat ≤ mmap.addrSpaceSize)
    {call : DevCall} (inside : call.offset.toNat + call.size ≤ mmap.onBusSize.toNat)
    (observed : Observed World) :
    mmap.StaysMapped dev observed ((mmap.device memory dev).call call observed).2 := by
  have fits : call.offset.toNat + call.size ≤ 2 ^ 32 :=
    Nat.le_trans inside (Nat.le_of_lt mmap.onBusSize.toNat_lt)
  obtain ⟨accesses, appended, visited⟩ := mmap.call_accessed memory dev fits observed
  refine ⟨accesses, appended, ?_⟩
  intro access made
  have place : access.span ∈ call.spans.map fun span => (mmap.position span.1, span.2) :=
    visited ▸ List.mem_map_of_mem made
  obtain ⟨span, among, same⟩ := List.mem_map.mp place
  have within := DevCall.spans_inside inside span among
  rw [← same]
  unfold position
  omega

/-- A device is mapped from the beginning of its page, and every call that lies
in the device has its accesses in the mapping. -/
theorem window_covers_device {bits : Nat} (width : bits = 32 ∨ bits = 64)
    {pageSize baseAddr size : UInt32} (page : IsPageSize pageSize)
    (small : size.toNat < 2 ^ 32 - pageSize.toNat) (memFileName : Text) :
    let mmap := newOn bits pageSize baseAddr size memFileName
    pageSize.toNat ∣ mmap.pageAddr.toNat ∧
      mmap.pageOffset.toNat < pageSize.toNat ∧
      mmap.pageAddr.toNat + mmap.pageOffset.toNat = baseAddr.toNat ∧
      mmap.addrSpaceSize = max size.toNat pageSize.toNat + pageSize.toNat ∧
      ∀ (World : Type) (memory : MappedMemory World) (dev : DevPtr) (call : DevCall)
        (observed : Observed World), call.offset.toNat + call.size ≤ size.toNat →
          mmap.StaysMapped dev observed ((mmap.device memory dev).call call observed).2 := by
  intro mmap
  have wide : 32 ≤ bits := by omega
  have positive : 0 < pageSize.toNat := Nat.lt_of_lt_of_le (by decide) page.bounds.1
  have atPage : mmap.pageAddr.toNat = baseAddr.toNat - baseAddr.toNat % pageSize.toNat :=
    @pageAddr_new pageSize baseAddr size page memFileName
  have inPage : mmap.pageOffset.toNat = baseAddr.toNat % pageSize.toNat :=
    @pageOffset_new pageSize baseAddr size page memFileName
  have below : mmap.pageOffset.toNat < pageSize.toNat := by
    rw [inPage]
    exact Nat.mod_lt _ positive
  have space : mmap.addrSpaceSize = max size.toNat pageSize.toNat + pageSize.toNat :=
    addrSpaceSizeOn_eq wide page small
  refine ⟨?_, below, ?_, space, ?_⟩
  · rw [atPage]
    exact Nat.dvd_sub_mod _
  · rw [atPage, inPage]
    exact Nat.sub_add_cancel (Nat.mod_le _ _)
  · intro World memory dev call observed inside
    have covered : mmap.pageOffset.toNat + mmap.onBusSize.toNat ≤ mmap.addrSpaceSize := by
      have same : mmap.onBusSize = size := rfl
      rw [same]
      omega
    exact mmap.call_staysMapped memory dev covered inside observed

/-- Eight bytes at the end of a device that begins and ends inside of pages. -/
theorem last_words_mapped :
    let mmap := newOn 32 4096 0x43C00010 0x2008 (text "/dev/mem")
    mmap.pageAddr = 0x43C00000 ∧ mmap.pageOffset = 0x10 ∧ mmap.addrSpaceSize = 0x3008 ∧
      mmap.StaysMapped 0 ⟨(), fun _ => ⟨-1, false⟩, []⟩
        ((mmap.device ⟨fun _ world => (0, world), fun _ world => (0, world), fun _ _ world => world,
          fun _ _ world => world⟩ 0).call (.write64 0x2000 7) ⟨(), fun _ => ⟨-1, false⟩, []⟩).2 := by
  have page : IsPageSize 4096 := ⟨12, by decide, by decide, rfl⟩
  obtain ⟨_, _, _, _, mapped⟩ :=
    @window_covers_device 32 (Or.inl rfl) 4096 0x43C00010 0x2008 page (by decide) (text "/dev/mem")
  exact ⟨by decide, by decide, by decide, mapped Unit _ 0 (.write64 0x2000 7) _ (by decide)⟩

end HwioDeviceMmap

end Hwio
