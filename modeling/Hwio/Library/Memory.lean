import Mathlib.Algebra.Group.Nat.Defs
import Mathlib.Data.List.TakeDrop
import Mathlib.Data.List.GetD

/-!
Contract: finite byte memories with total loads and stores.

A memory is the list of the bytes from one address on.  Bytes behind the end
of the list read as zero, and a store that reaches past the end makes the list
longer, so that an out-of-bounds store stays visible in the length.

Owns loads, stores, little-endian words, zero-terminated strings and the
bounded string copy, with the laws by which they compose.

Does not own any layout of a record.
-/

namespace Hwio.Library

abbrev Byte := UInt8

/-! ## Loads and stores -/

/-- The `count` bytes from `offset` on. -/
def load (memory : List Byte) (offset count : Nat) : List Byte :=
  (memory.drop offset).takeD count 0

/-- Overwrite the bytes from `offset` on. -/
def store (memory : List Byte) (offset : Nat) (bytes : List Byte) : List Byte :=
  memory.takeD offset 0 ++ bytes ++ memory.drop (offset + bytes.length)

@[simp] theorem load_length (memory : List Byte) (offset count : Nat) :
    (load memory offset count).length = count :=
  List.takeD_length ..

@[simp] theorem load_zero (memory : List Byte) (offset : Nat) :
    load memory offset 0 = [] := rfl

theorem store_length (memory : List Byte) (offset : Nat) (bytes : List Byte) :
    (store memory offset bytes).length =
      max memory.length (offset + bytes.length) := by
  simp only [store, List.length_append, List.takeD_length, List.length_drop]
  omega

theorem takeD_getElem? {α : Type} (default : α) :
    ∀ (count : Nat) (list : List α) (index : Nat),
      (list.takeD count default)[index]? =
        if index < count then some (list.getD index default) else none
  | 0, list, index => by simp
  | count + 1, [], index => by
      simp only [List.takeD_nil, List.getElem?_replicate, List.getD_nil]
  | count + 1, head :: tail, 0 => by simp
  | count + 1, head :: tail, index + 1 => by
      simp only [List.takeD, List.tail_cons, List.getElem?_cons_succ, List.getD_cons_succ,
        takeD_getElem? default count tail index, Nat.add_lt_add_iff_right]

theorem load_getElem? (memory : List Byte) (offset count index : Nat) :
    (load memory offset count)[index]? =
      if index < count then some (memory.getD (offset + index) 0) else none := by
  rw [load, takeD_getElem?]
  simp only [List.getD_eq_getElem?_getD, List.getElem?_drop]

theorem store_getD (memory : List Byte) (offset : Nat) (bytes : List Byte) (index : Nat) :
    (store memory offset bytes).getD index 0 =
      if offset ≤ index ∧ index < offset + bytes.length then
        bytes.getD (index - offset) 0
      else memory.getD index 0 := by
  have prefixLength : (memory.takeD offset 0).length = offset := List.takeD_length ..
  simp only [store, List.getD_eq_getElem?_getD, List.append_assoc]
  by_cases before : index < offset
  · rw [List.getElem?_append_left (by omega), takeD_getElem?, if_pos before,
      if_neg (by omega), Option.getD_some, List.getD_eq_getElem?_getD]
  · rw [List.getElem?_append_right (by omega), prefixLength]
    by_cases middle : index < offset + bytes.length
    · rw [List.getElem?_append_left (by omega), if_pos ⟨by omega, middle⟩]
    · rw [List.getElem?_append_right (by omega), if_neg (by omega), List.getElem?_drop]
      congr 2
      omega

/-- Loads are equal when the memories agree on the ranges they read. -/
theorem load_congr {left right : List Byte} {leftOffset rightOffset count : Nat}
    (agree : ∀ index, index < count →
      left.getD (leftOffset + index) 0 = right.getD (rightOffset + index) 0) :
    load left leftOffset count = load right rightOffset count := by
  apply List.ext_getElem?
  intro index
  rw [load_getElem?, load_getElem?]
  by_cases below : index < count
  · rw [if_pos below, if_pos below, agree index below]
  · rw [if_neg below, if_neg below]

/-- What was stored is loaded back. -/
@[simp] theorem load_store_same (memory : List Byte) (offset : Nat) (bytes : List Byte) :
    load (store memory offset bytes) offset bytes.length = bytes := by
  apply List.ext_getElem?
  intro index
  rw [load_getElem?]
  by_cases below : index < bytes.length
  · rw [if_pos below, store_getD, if_pos (by omega), Nat.add_sub_cancel_left,
      List.getD_eq_getElem _ _ below, List.getElem?_eq_getElem below]
  · rw [if_neg below, List.getElem?_eq_none (by omega)]

/-- A store leaves every range that it does not meet unchanged. -/
theorem load_store_apart (memory : List Byte) {offset position count : Nat}
    {bytes : List Byte}
    (apart : position + count ≤ offset ∨ offset + bytes.length ≤ position) :
    load (store memory offset bytes) position count = load memory position count := by
  apply load_congr
  intro index below
  rw [store_getD, if_neg (by omega)]

/-- A single byte stored behind the beginning of a range is set in it. -/
theorem load_store_singleton (memory : List Byte) {offset position : Nat} (count : Nat)
    (behind : position ≤ offset) (byte : Byte) :
    load (store memory offset [byte]) position count =
      (load memory position count).set (offset - position) byte := by
  apply List.ext_getElem?
  intro index
  rw [load_getElem?, List.getElem?_set, load_length, load_getElem?]
  by_cases here : offset - position = index
  · have stored : (store memory offset [byte]).getD (position + index) 0 = byte := by
      rw [store_getD, show position + index = offset by omega, if_pos (by simp), Nat.sub_self]
      rfl
    rw [if_pos here, stored, here]
  · have kept : (store memory offset [byte]).getD (position + index) 0 =
        memory.getD (position + index) 0 := by
      rw [store_getD, List.length_singleton, if_neg (by omega)]
    rw [if_neg here, kept]

/-- A memory that is put together again reads as before. -/
theorem load_takeD_append_drop (memory : List Byte) (split offset count : Nat) :
    load (memory.takeD split 0 ++ memory.drop split) offset count = load memory offset count := by
  have stored : memory.takeD split 0 ++ memory.drop split = store memory split [] := by
    rw [store, List.append_nil]
    rfl
  rw [stored]
  apply load_congr
  intro index _
  rw [store_getD, List.length_nil, if_neg (by omega)]

/-- A load splits at any point of its range. -/
theorem load_add (memory : List Byte) (offset first second : Nat) :
    load memory offset (first + second) =
      load memory offset first ++ load memory (offset + first) second := by
  apply List.ext_getElem?
  intro index
  rw [load_getElem?]
  by_cases early : index < first
  · rw [List.getElem?_append_left (by simpa using early), load_getElem?,
      if_pos (by omega), if_pos early]
  · rw [List.getElem?_append_right (by simpa using early), load_length, load_getElem?]
    by_cases below : index < first + second
    · rw [if_pos below, if_pos (by omega)]
      congr 2
      omega
    · rw [if_neg below, if_neg (by omega)]

/-- The parts of a memory that holds one behind the other. -/
theorem load_parts {memory : List Byte} {offset first second : Nat} {front back : List Byte}
    (both : load memory offset (first + second) = front ++ back) (length : front.length = first) :
    load memory offset first = front ∧ load memory (offset + first) second = back := by
  rw [load_add] at both
  exact List.append_inj both (by rw [load_length, length])

/-- A load that stays inside the memory is a slice of it. -/
theorem load_eq_take_drop {memory : List Byte} {offset count : Nat}
    (inside : offset + count ≤ memory.length) :
    load memory offset count = (memory.drop offset).take count :=
  List.takeD_eq_take 0 (by simp only [List.length_drop]; omega)

theorem load_append_left {front : List Byte} {offset count : Nat} (back : List Byte)
    (inside : offset + count ≤ front.length) :
    load (front ++ back) offset count = load front offset count := by
  apply load_congr
  intro index below
  rw [List.getD_append _ _ _ _ (by omega)]

/-- A load from a front part does not depend on what lies behind it just when
it stays inside that part. -/
theorem load_append_determined_iff (front : List Byte) (offset count : Nat) :
    (∀ back back', load (front ++ back) offset count = load (front ++ back') offset count) ↔
      count = 0 ∨ offset + count ≤ front.length := by
  constructor
  · intro determined
    rcases Nat.eq_zero_or_pos count with zero | positive
    · exact Or.inl zero
    · right
      -- otherwise the last byte of the load is one of those behind
      refine Nat.le_of_not_lt fun beyond => ?_
      have last : ∀ byte : Byte,
          (load (front ++ List.replicate (offset + count) byte) offset count)[count - 1]? =
            some byte := by
        intro byte
        rw [load_getElem?, if_pos (by omega), List.getD_append_right _ _ _ _ (by omega),
          List.getD_replicate _ (by omega)]
      have same := last 0
      rw [determined _ (List.replicate (offset + count) 1), last 1] at same
      cases same
  · rintro (zero | inside) back back'
    · rw [zero, load_zero, load_zero]
    · rw [load_append_left back inside, load_append_left back' inside]

theorem load_append_right (front back : List Byte) (offset count : Nat) :
    load (front ++ back) (front.length + offset) count = load back offset count := by
  apply load_congr
  intro index below
  rw [List.getD_append_right _ _ _ _ (by omega)]
  congr 1
  omega

@[simp] theorem load_whole (bytes : List Byte) : load bytes 0 bytes.length = bytes := by
  rw [load_eq_take_drop (by omega), List.drop_zero, List.take_length]

/-- Loading from a part of the memory is loading from the memory. -/
theorem load_drop (memory : List Byte) (start offset count : Nat) :
    load (memory.drop start) offset count = load memory (start + offset) count := by
  rw [load, load, List.drop_drop]

/-- A load of a load is a load of the memory. -/
theorem load_load (memory : List Byte) {start size offset count : Nat}
    (inside : offset + count ≤ size) :
    load (load memory start size) offset count = load memory (start + offset) count := by
  apply load_congr
  intro index below
  rw [List.getD_eq_getElem?_getD, load_getElem?, if_pos (by omega), Option.getD_some]
  congr 1
  omega

/-- Memories that agree on their front agree on each part of it. -/
theorem load_part {left right : List Byte} {count : Nat}
    (agree : load left 0 count = load right 0 count) {offset part : Nat}
    (inside : offset + part ≤ count) : load left offset part = load right offset part := by
  have parts : load (load left 0 count) offset part = load (load right 0 count) offset part :=
    congrArg (load · offset part) agree
  rw [load_load left inside, load_load right inside, Nat.zero_add] at parts
  exact parts

/-- The front of a load is a shorter load. -/
theorem load_take (memory : List Byte) (offset : Nat) {fewer count : Nat} (below : fewer ≤ count) :
    (load memory offset count).take fewer = load memory offset fewer := by
  rw [← Nat.add_sub_of_le below, load_add]
  exact List.take_left' (load_length ..)

/-- From its offset on, a store shows the stored bytes and then the memory
behind them. -/
theorem store_drop_same (memory : List Byte) (offset : Nat) (bytes : List Byte) :
    (store memory offset bytes).drop offset = bytes ++ memory.drop (offset + bytes.length) := by
  rw [store, List.append_assoc, List.drop_append_of_le_length (by simp),
    List.drop_of_length_le (by simp), List.nil_append]

/-- From a place behind its offset on, a store shows the rest of the stored
bytes and then the memory behind both. -/
theorem store_drop (memory : List Byte) {offset position : Nat} (behind : offset ≤ position)
    (bytes : List Byte) :
    (store memory offset bytes).drop position =
      bytes.drop (position - offset) ++ memory.drop (max position (offset + bytes.length)) := by
  obtain ⟨gap, rfl⟩ := Nat.exists_eq_add_of_le behind
  rw [← List.drop_drop, store_drop_same, List.drop_append, List.drop_drop, Nat.add_sub_cancel_left]
  congr 2
  omega

/-- The memory behind a store is unchanged. -/
theorem store_drop_after (memory : List Byte) {offset position : Nat} {bytes : List Byte}
    (after : offset + bytes.length ≤ position) :
    (store memory offset bytes).drop position = memory.drop position := by
  obtain ⟨gap, rfl⟩ := Nat.exists_eq_add_of_le after
  rw [Nat.add_assoc, ← List.drop_drop, store_drop_same, ← List.drop_drop (j := bytes.length),
    List.drop_left, List.drop_drop, Nat.add_assoc]

/-- Memories that agree on their front go on to agree up to the end of a store
that begins there. -/
theorem load_store_agree {left right : List Byte} {count offset : Nat}
    (agree : load left 0 count = load right 0 count) (touches : offset ≤ count)
    (bytes : List Byte) :
    load (store left offset bytes) 0 (max count (offset + bytes.length)) =
      load (store right offset bytes) 0 (max count (offset + bytes.length)) := by
  apply load_congr
  intro index below
  rw [store_getD, store_getD, Nat.zero_add]
  by_cases stored : offset ≤ index ∧ index < offset + bytes.length
  · rw [if_pos stored, if_pos stored]
  · rw [if_neg stored, if_neg stored]
    have here := congrArg (·[index]?) agree
    simp only [load_getElem?, Nat.zero_add] at here
    rw [if_pos (by omega), if_pos (by omega)] at here
    exact Option.some.inj here

/-- A store into the front of a memory changes nothing behind it. -/
theorem store_load_append (memory : List Byte) {count offset : Nat} {bytes : List Byte}
    (inside : offset + bytes.length ≤ count) (beyond : List Byte) :
    store (load memory 0 count ++ beyond) offset bytes =
      load (store memory offset bytes) 0 count ++ beyond := by
  have front : load (load memory 0 count ++ beyond) 0 count = load memory 0 count := by
    have whole := load_append_left beyond (Nat.le_of_eq (Nat.zero_add (load memory 0 count).length))
    rw [load_whole, load_length] at whole
    exact whole
  have agree := load_store_agree front (Nat.le_trans (Nat.le_add_right _ _) inside) bytes
  rw [Nat.max_eq_left inside] at agree
  have long : 0 + count ≤ (store (load memory 0 count ++ beyond) offset bytes).length := by
    rw [store_length, List.length_append, load_length]
    omega
  rw [load_eq_take_drop long, List.drop_zero] at agree
  rw [← List.take_append_drop count (store (load memory 0 count ++ beyond) offset bytes), agree,
    store_drop_after _ inside, List.drop_left' (load_length ..)]

/-- Copy `count` bytes one after the other, from the lowest address up. -/
def copyUp (memory : List Byte) (target source : Nat) : Nat → List Byte
  | 0 => memory
  | count + 1 =>
      copyUp (store memory target (load memory source 1)) (target + 1) (source + 1) count

/-- Copying upward to a lower address moves the bytes whole, also when the two
ranges overlap: every byte is read before it is overwritten. -/
theorem load_copyUp_target (memory : List Byte) {target source : Nat} (below : target ≤ source)
    (count : Nat) : load (copyUp memory target source count) target count =
      load memory source count := by
  have outside : ∀ (count : Nat) (memory : List Byte) {target source index : Nat},
      index < target → (copyUp memory target source count).getD index 0 = memory.getD index 0 := by
    intro count
    induction count with
    | zero => intros; rfl
    | succ count inductionHypothesis =>
        intro memory target source index early
        rw [copyUp, inductionHypothesis _ (by omega), store_getD, if_neg (by omega)]
  induction count generalizing memory target source with
  | zero => rfl
  | succ count inductionHypothesis =>
      have first : load (copyUp memory target source (count + 1)) target 1 =
          load memory source 1 := by
        calc load (copyUp memory target source (count + 1)) target 1 =
            load (store memory target (load memory source 1)) target 1 :=
              load_congr fun index only => outside count _ (by omega)
          _ = load memory source 1 := by
              simpa using load_store_same memory target (load memory source 1)
      have later : load (store memory target (load memory source 1)) (source + 1) count =
          load memory (source + 1) count :=
        load_store_apart memory (Or.inr (by rw [load_length]; omega))
      rw [Nat.add_comm count 1, load_add, load_add, Nat.add_comm 1 count, first, copyUp,
        inductionHypothesis _ (by omega), later]

/-! ## Little-endian words -/

/-- The `width` low bytes of a number, lowest first. -/
def leBytes : Nat → Nat → List Byte
  | 0, _ => []
  | width + 1, value => UInt8.ofNat (value % 256) :: leBytes width (value / 256)

/-- The number whose bytes, lowest first, are given. -/
def leNat : List Byte → Nat
  | [] => 0
  | byte :: rest => byte.toNat + 256 * leNat rest

@[simp] theorem leBytes_length (width value : Nat) : (leBytes width value).length = width := by
  induction width generalizing value with
  | zero => rfl
  | succ width inductionHypothesis => simp [leBytes, inductionHypothesis]

/-- Decoding an encoded number reduces it to the width. -/
theorem leNat_leBytes (width value : Nat) :
    leNat (leBytes width value) = value % 256 ^ width := by
  induction width generalizing value with
  | zero => simp [leBytes, leNat, Nat.mod_one]
  | succ width inductionHypothesis =>
      rw [leBytes, leNat, inductionHypothesis, Nat.pow_succ, Nat.mul_comm (256 ^ width) 256,
        Nat.mod_mul]
      congr 1
      simp

theorem leNat_lt (bytes : List Byte) : leNat bytes < 256 ^ bytes.length := by
  induction bytes with
  | nil => simp [leNat]
  | cons byte rest inductionHypothesis =>
      rw [leNat, List.length_cons, Nat.pow_succ]
      have small := byte.toNat_lt
      omega

/-- Encoding a decoded number gives its bytes back. -/
theorem leBytes_leNat (bytes : List Byte) : leBytes bytes.length (leNat bytes) = bytes := by
  induction bytes with
  | nil => rfl
  | cons byte rest inductionHypothesis =>
      have small := byte.toNat_lt
      have low : (byte.toNat + 256 * leNat rest) % 256 = byte.toNat := by omega
      have high : (byte.toNat + 256 * leNat rest) / 256 = leNat rest := by omega
      rw [List.length_cons, leBytes, leNat, low, high, inductionHypothesis]
      congr 1
      exact UInt8.ofNat_toNat

/-- Byte strings of one length with the same number are the same. -/
theorem leNat_inj {left right : List Byte} (sameLength : left.length = right.length)
    (same : leNat left = leNat right) : left = right := by
  rw [← leBytes_leNat left, ← leBytes_leNat right, sameLength, same]

/-- A word of several bytes is its low part and its high part. -/
theorem leBytes_add (low high value : Nat) :
    leBytes (low + high) value = leBytes low value ++ leBytes high (value / 256 ^ low) := by
  induction low generalizing value with
  | zero => simp [leBytes]
  | succ low inductionHypothesis =>
      rw [Nat.succ_add, leBytes, leBytes, inductionHypothesis, List.cons_append,
        Nat.div_div_eq_div_mul, Nat.pow_succ, Nat.mul_comm 256]

/-- The number whose bytes, highest first, are given. -/
def beNat (bytes : List Byte) : Nat := bytes.foldl (fun value byte => value * 256 + byte.toNat) 0

/-- The unsigned words of two and four bytes at an offset. -/
def loadU16 (memory : List Byte) (offset : Nat) : UInt16 :=
  UInt16.ofNat (leNat (load memory offset 2))

def loadU32 (memory : List Byte) (offset : Nat) : UInt32 :=
  UInt32.ofNat (leNat (load memory offset 4))

def u16Bytes (word : UInt16) : List Byte := leBytes 2 word.toNat

def u32Bytes (word : UInt32) : List Byte := leBytes 4 word.toNat

@[simp] theorem u16Bytes_length (word : UInt16) : (u16Bytes word).length = 2 := leBytes_length ..

@[simp] theorem u32Bytes_length (word : UInt32) : (u32Bytes word).length = 4 := leBytes_length ..

@[simp] theorem leNat_u16Bytes (word : UInt16) : leNat (u16Bytes word) = word.toNat := by
  rw [u16Bytes, leNat_leBytes]
  exact Nat.mod_eq_of_lt word.toNat_lt

@[simp] theorem leNat_u32Bytes (word : UInt32) : leNat (u32Bytes word) = word.toNat := by
  rw [u32Bytes, leNat_leBytes]
  exact Nat.mod_eq_of_lt word.toNat_lt

theorem loadU16_toNat (memory : List Byte) (offset : Nat) :
    (loadU16 memory offset).toNat = leNat (load memory offset 2) := by
  have bound := leNat_lt (load memory offset 2)
  rw [load_length] at bound
  rw [loadU16, UInt16.toNat_ofNat_of_lt' bound]

theorem loadU32_toNat (memory : List Byte) (offset : Nat) :
    (loadU32 memory offset).toNat = leNat (load memory offset 4) := by
  have bound := leNat_lt (load memory offset 4)
  rw [load_length] at bound
  rw [loadU32, UInt32.toNat_ofNat_of_lt' bound]

/-- A word is read back from where its bytes lie. -/
theorem loadU16_of_load {memory : List Byte} {offset : Nat} {word : UInt16}
    (bytes : load memory offset 2 = u16Bytes word) : loadU16 memory offset = word := by
  rw [loadU16, bytes, leNat_u16Bytes, UInt16.ofNat_toNat]

theorem loadU32_of_load {memory : List Byte} {offset : Nat} {word : UInt32}
    (bytes : load memory offset 4 = u32Bytes word) : loadU32 memory offset = word := by
  rw [loadU32, bytes, leNat_u32Bytes, UInt32.ofNat_toNat]

/-- The bytes of a loaded word are the bytes it was loaded from. -/
theorem u16Bytes_loadU16 (memory : List Byte) (offset : Nat) :
    u16Bytes (loadU16 memory offset) = load memory offset 2 := by
  have bytes := leBytes_leNat (load memory offset 2)
  rwa [load_length, ← loadU16_toNat] at bytes

theorem u32Bytes_loadU32 (memory : List Byte) (offset : Nat) :
    u32Bytes (loadU32 memory offset) = load memory offset 4 := by
  have bytes := leBytes_leNat (load memory offset 4)
  rwa [load_length, ← loadU32_toNat] at bytes

theorem load_one (memory : List Byte) (offset : Nat) :
    load memory offset 1 = [memory.getD offset 0] := by
  apply List.ext_getElem?
  intro index
  rw [load_getElem?]
  cases index <;> simp

/-! ## Zero-terminated strings -/

/-- The string that starts at the front of a memory. -/
def cstr (memory : List Byte) : List Byte := memory.takeWhile (· ≠ 0)

/-- The bounded string copy: at most `count` characters, padded with zeros. -/
def strncpy (source : List Byte) (count : Nat) : List Byte := (cstr source).takeD count 0

@[simp] theorem cstr_cons_zero (rest : List Byte) : cstr (0 :: rest) = [] := rfl

@[simp] theorem cstr_nil : cstr [] = [] := rfl

theorem cstr_cons_of_ne {byte : Byte} (nonzero : byte ≠ 0) (rest : List Byte) :
    cstr (byte :: rest) = byte :: cstr rest := by
  simp [cstr, nonzero]

theorem zero_not_mem_cstr (memory : List Byte) : 0 ∉ cstr memory := by
  induction memory with
  | nil => simp
  | cons byte rest inductionHypothesis =>
      by_cases zero : byte = 0
      · subst zero
        simp
      · rw [cstr_cons_of_ne zero]
        simp only [List.mem_cons, not_or]
        exact ⟨fun same => zero same.symm, inductionHypothesis⟩

theorem cstr_append_of_not_mem {string : List Byte} (free : 0 ∉ string) (rest : List Byte) :
    cstr (string ++ rest) = string ++ cstr rest := by
  induction string with
  | nil => rfl
  | cons byte string inductionHypothesis =>
      simp only [List.mem_cons, not_or] at free
      rw [List.cons_append, cstr_cons_of_ne (fun zero => free.1 zero.symm),
        inductionHypothesis free.2, List.cons_append]

theorem cstr_of_not_mem {string : List Byte} (free : 0 ∉ string) : cstr string = string := by
  simpa using cstr_append_of_not_mem free []

@[simp] theorem cstr_cstr (memory : List Byte) : cstr (cstr memory) = cstr memory :=
  cstr_of_not_mem (zero_not_mem_cstr memory)

/-- A string that ends inside a front part of the memory is not changed by
what lies behind it. -/
theorem cstr_append_of_mem {front : List Byte} (ends : 0 ∈ front) (back : List Byte) :
    cstr (front ++ back) = cstr front := by
  induction front with
  | nil => cases ends
  | cons byte rest inductionHypothesis =>
      by_cases zero : byte = 0
      · subst zero
        rfl
      · have later : 0 ∈ rest := by
          rcases List.mem_cons.mp ends with same | later
          · exact absurd same.symm zero
          · exact later
        rw [List.cons_append, cstr_cons_of_ne zero, cstr_cons_of_ne zero,
          inductionHypothesis later]

/-- The characters of a string are followed by its terminator. -/
theorem load_cstr (memory : List Byte) :
    load memory 0 ((cstr memory).length + 1) = cstr memory ++ [0] := by
  rw [load, List.drop_zero]
  induction memory with
  | nil => rfl
  | cons byte rest inductionHypothesis =>
      by_cases zero : byte = 0
      · subst zero
        rfl
      · rw [cstr_cons_of_ne zero]
        simp only [List.length_cons, List.takeD, List.cons_append]
        exact congrArg (byte :: ·) inductionHypothesis

/-- The string at an offset ends inside some bytes that hold a zero. -/
theorem cstr_drop_of_load {memory : List Byte} {offset count : Nat}
    (ends : 0 ∈ load memory offset count) :
    cstr (memory.drop offset) = cstr (load memory offset count) := by
  unfold load at ends ⊢
  induction count generalizing offset memory with
  | zero => cases ends
  | succ count inductionHypothesis =>
      generalize memory.drop offset = rest at ends ⊢
      cases rest with
      | nil => rfl
      | cons byte rest =>
          rw [List.takeD_succ] at ends ⊢
          by_cases zero : byte = 0
          · subst zero
            rfl
          · have later : 0 ∈ rest.takeD count 0 := by
              rcases List.mem_cons.mp ends with same | later
              · exact absurd same.symm zero
              · exact later
            have same := @inductionHypothesis rest 0 later
            rw [List.drop_zero] at same
            show cstr (byte :: rest) = cstr (byte :: rest.takeD count 0)
            rw [cstr_cons_of_ne zero, cstr_cons_of_ne zero, same]

theorem cstr_length_le (memory : List Byte) : (cstr memory).length ≤ memory.length :=
  List.Sublist.length_le (List.takeWhile_sublist _)

@[simp] theorem strncpy_cstr (source : List Byte) (count : Nat) :
    strncpy (cstr source) count = strncpy source count := by
  rw [strncpy, strncpy, cstr_cstr]

@[simp] theorem strncpy_length (source : List Byte) (count : Nat) :
    (strncpy source count).length = count :=
  List.takeD_length ..

/-- A string shorter than the bound is copied whole and padded with zeros. -/
theorem strncpy_of_le {string : List Byte} {count : Nat} (free : 0 ∉ string)
    (fits : string.length ≤ count) :
    strncpy string count = string ++ List.replicate (count - string.length) 0 := by
  rw [strncpy, cstr_of_not_mem free]
  apply List.ext_getElem?
  intro index
  rw [takeD_getElem?]
  by_cases inside : index < string.length
  · rw [if_pos (by omega), List.getElem?_append_left inside, List.getD_eq_getElem _ _ inside,
      List.getElem?_eq_getElem inside]
  · rw [List.getElem?_append_right (by omega), List.getElem?_replicate,
      List.getD_eq_default _ _ (by omega)]
    by_cases below : index < count
    · rw [if_pos below, if_pos (by omega)]
    · rw [if_neg below, if_neg (by omega)]

/-- A string of at least the bound is cut, and no zero follows it. -/
theorem strncpy_of_ge {string : List Byte} {count : Nat} (free : 0 ∉ string)
    (long : count ≤ string.length) : strncpy string count = string.take count := by
  rw [strncpy, cstr_of_not_mem free, List.takeD_eq_take 0 long]

theorem strncpy_take (source : List Byte) {fewer count : Nat} (below : fewer ≤ count) :
    (strncpy source count).take fewer = strncpy source fewer := by
  apply List.ext_getElem?
  intro index
  rw [List.getElem?_take, strncpy, strncpy, takeD_getElem?, takeD_getElem?]
  by_cases inside : index < fewer
  · rw [if_pos inside, if_pos inside, if_pos (by omega)]
  · rw [if_neg inside, if_neg inside]

/-- A copied string that is shorter than the bound is read back unchanged,
whatever lies behind the copy. -/
theorem cstr_strncpy {string : List Byte} {count : Nat} (free : 0 ∉ string)
    (short : string.length < count) (rest : List Byte) :
    cstr (strncpy string count ++ rest) = string := by
  rw [strncpy_of_le free (by omega), List.append_assoc, cstr_append_of_not_mem free]
  obtain ⟨padding, padded⟩ : ∃ padding, count - string.length = padding + 1 :=
    ⟨count - string.length - 1, by omega⟩
  rw [padded, List.replicate_succ, List.cons_append, cstr_cons_zero, List.append_nil]

end Hwio.Library
