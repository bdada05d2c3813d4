import Hwio.Bus.Compatibility
import Hwio.Bus.Devicetree

/-!
Contract: `hwio_bus_json.cpp`, the devices of a JSON description.

Owns property trees as the loader reads them, hexadecimal numbers, and what
`parse_device` and `load_devices` make of a description.

Does not own the parser of JSON, which is a part of boost.
-/

namespace Hwio

open Library

/-! ## Property trees -/

/-- `boost::property_tree::ptree`: its data, and its children with their keys in
order.  The elements of an array have empty keys. -/
inductive Ptree where
  | node (data : Text) (children : List (Text × Ptree))

namespace Ptree

def data : Ptree → Text
  | node data _ => data

def children : Ptree → List (Text × Ptree)
  | node _ children => children

/-- `get_child` of a key, which throws a `ptree_bad_path` when there is none. -/
def getChild (tree : Ptree) (key : Text) : Except Exn Ptree :=
  match tree.children.find? fun child => child.1 = key with
  | some child => .ok child.2
  | none => .error ⟨true, text "No such node"⟩

/-- `get<std::string>` with a default -/
def get (tree : Ptree) (key default : Text) : Text :=
  match tree.getChild key with
  | .ok child => child.data
  | .error _ => default

end Ptree

/-! ## Hexadecimal numbers -/

/-- `isspace` in the "C" locale -/
def isSpace (byte : Byte) : Bool := byte = 32 || (9 ≤ byte && byte ≤ 13)

/-- The value of a hexadecimal digit. -/
def hexDigit (byte : Byte) : Option Nat :=
  if isDigit byte then some (byte.toNat - 48)
  else if 65 ≤ byte && byte ≤ 70 then some (byte.toNat - 55)
  else if 97 ≤ byte && byte ≤ 102 then some (byte.toNat - 87)
  else none

def isHexDigit (byte : Byte) : Bool := (hexDigit byte).isSome

def hexNumber (digits : Text) : Nat :=
  digits.foldl (fun value digit => 16 * value + (hexDigit digit).getD 0) 0

/-- `0x` or `0X` in front of a digit -/
def dropHexPrefix : Text → Text
  | 48 :: x :: digit :: rest =>
      if (x = 120 ∨ x = 88) ∧ isHexDigit digit then digit :: rest else 48 :: x :: digit :: rest
  | str => str

/-- `std::stoul(str, nullptr, 16)` -/
def stoul (str : Text) : Except Exn Nat :=
  let str := str.dropWhile isSpace
  let isNegative := str.head? = some 45
  let digits := dropHexPrefix (if isNegative ∨ str.head? = some 43 then str.tail else str)
  let value := hexNumber (digits.takeWhile isHexDigit)
  if digits.takeWhile isHexDigit = [] then .error ⟨false, text "stoul"⟩
  else if 2 ^ 64 ≤ value then .error ⟨false, text "stoul"⟩
  else .ok (if isNegative then (2 ^ 64 - value) % 2 ^ 64 else value)

/-! ## Loading -/

/-- `wrong_format` -/
def wrongFormat (errMsg : Text) : Exn := ⟨true, errMsg⟩

/-- A call of another part of the program that may throw. -/
def calls {Result : Type} : Except Exn Result → Except TreeFailure Result
  | .ok result => .ok result
  | .error exn => .error (.thrown exn)

/-- An element of the array `compatible`. -/
def parseCompatible (name : Text) (item : Text × Ptree) : Except TreeFailure HwioCompSpec :=
  if item.1 ≠ [] then .error (.assertion (text "item.first.empty()"))
  else do
    let spec ← calls (HwioCompSpec.parse (cstr item.2.data))
    return spec.nameSet name

/-- `parse_device`; `_size` is converted from `base` and `_base` from `size`. -/
def parseDevice (pageSize : UInt32) (src : Ptree) (offset : UInt32) (memFilePath : Text) :
    Except TreeFailure TreeDevice :=
  let name := src.get (text "name") []
  let base := src.get (text "base") []
  let size := src.get (text "size") []
  if base = [] then .error (.thrown (wrongFormat (text "Missing base attribute")))
  else if size = [] then .error (.thrown (wrongFormat (text "Missing size attribute")))
  else do
    let compatible ← calls (src.getChild (text "compatible"))
    let specs ← compatible.children.mapM (parseCompatible name)
    let size' ← calls (stoul base)
    let base' ← calls (stoul size)
    return {
      name := []
      spec := specs
      mmap := HwioDeviceMmap.new pageSize (offset + UInt32.ofNat base') (UInt32.ofNat size')
        memFilePath }

/-- `hwio_bus_json::load_devices` -/
def loadDevices (pageSize : UInt32) (root : Ptree) : Except TreeFailure (List TreeDevice) := do
  let memFile := root.get (text "memfile") (text "/dev/mem")
  let offsetStr := root.get (text "offset") (text "0")
  let offset ← calls (stoul (cstr offsetStr))
  let devices ← calls (root.getChild (text "devices"))
  devices.children.mapM fun d => parseDevice pageSize d.2 (UInt32.ofNat offset) memFile

/-! ## Descriptions -/

/-- A text that writes a number in hexadecimal digits, with a prefix or without. -/
inductive WritesHex : Text → Nat → Prop
  | plain {digits : Text} (some : digits ≠ []) (all : ∀ byte ∈ digits, isHexDigit byte = true) :
      WritesHex digits (hexNumber digits)
  | prefixed {x : Byte} {digits : Text} (mark : x = 120 ∨ x = 88) (some : digits ≠ [])
      (all : ∀ byte ∈ digits, isHexDigit byte = true) :
      WritesHex (48 :: x :: digits) (hexNumber digits)

theorem isHexDigit_range {byte : Byte} (digit : isHexDigit byte = true) :
    (48 ≤ byte.toNat ∧ byte.toNat ≤ 57) ∨ (65 ≤ byte.toNat ∧ byte.toNat ≤ 70) ∨
      (97 ≤ byte.toNat ∧ byte.toNat ≤ 102) := by
  unfold isHexDigit hexDigit at digit
  split at digit
  next decimal =>
    simp only [isDigit, Bool.and_eq_true, decide_eq_true_eq, UInt8.le_iff_toNat_le,
      UInt8.reduceToNat] at decimal
    exact Or.inl decimal
  split at digit
  next upper =>
    simp only [Bool.and_eq_true, decide_eq_true_eq, UInt8.le_iff_toNat_le,
      UInt8.reduceToNat] at upper
    exact Or.inr (Or.inl upper)
  split at digit
  next lower =>
    simp only [Bool.and_eq_true, decide_eq_true_eq, UInt8.le_iff_toNat_le,
      UInt8.reduceToNat] at lower
    exact Or.inr (Or.inr lower)
  next => cases digit

theorem isSpace_range {byte : Byte} (space : isSpace byte = true) : byte.toNat ≤ 32 := by
  simp only [isSpace, Bool.or_eq_true, decide_eq_true_eq, Bool.and_eq_true,
    UInt8.le_iff_toNat_le, UInt8.reduceToNat] at space
  rcases space with rfl | ⟨_, upper⟩
  · decide
  · omega

theorem hexDigit_not_space {byte : Byte} (digit : isHexDigit byte = true) :
    isSpace byte = false := by
  apply Bool.eq_false_iff.mpr
  intro space
  have range := isHexDigit_range digit
  have small := isSpace_range space
  omega

/-- `std::stoul` of digits behind their prefix, if they have one. -/
theorem stoul_of_digits {str digits : Text} (noMinus : str.head? ≠ some 45)
    (noPlus : str.head? ≠ some 43) (noSpace : ∀ byte ∈ str.head?, isSpace byte = false)
    (behind : dropHexPrefix str = digits) (nonempty : digits ≠ [])
    (all : ∀ byte ∈ digits, isHexDigit byte = true) (small : hexNumber digits < 2 ^ 64) :
    stoul str = .ok (hexNumber digits) := by
  have start : str.dropWhile isSpace = str := by
    cases str with
    | nil => rfl
    | cons byte rest =>
        rw [List.dropWhile_cons, noSpace byte rfl]
        rfl
  have whole : digits.takeWhile isHexDigit = digits := by
    simpa using @List.takeWhile_append_of_pos _ isHexDigit digits [] all
  unfold stoul
  simp only [start, noMinus, noPlus, or_self, if_false, behind, whole, if_neg nonempty,
    if_neg (Nat.not_le.mpr small)]

/-- `std::stoul` gives the number that a text writes, when 64 bits hold it. -/
theorem stoul_of_writes {str : Text} {value : Nat} (writes : WritesHex str value)
    (small : value < 2 ^ 64) : stoul str = .ok value := by
  cases writes with
  | plain nonempty all =>
      cases str with
      | nil => exact absurd rfl nonempty
      | cons first rest =>
          have digit := all first List.mem_cons_self
          refine stoul_of_digits ?_ ?_ ?_ ?_ nonempty all small
          · intro same
            rw [Option.some.inj same] at digit
            cases digit
          · intro same
            rw [Option.some.inj same] at digit
            cases digit
          · intro byte same
            obtain rfl := Option.some.inj same
            exact hexDigit_not_space digit
          · unfold dropHexPrefix
            split
            next x digit rest same =>
              obtain ⟨rfl, rfl⟩ := List.cons.inj same
              have second := all x (by simp)
              rw [if_neg]
              rintro ⟨rfl | rfl, _⟩
              · cases second
              · cases second
            next => rfl
  | @prefixed x digits mark nonempty all =>
      cases digits with
      | nil => exact absurd rfl nonempty
      | cons first rest =>
          refine stoul_of_digits (by simp) (by simp) ?_ ?_ nonempty all small
          · intro byte same
            obtain rfl := Option.some.inj same
            decide
          · rw [dropHexPrefix, if_pos ⟨mark, all first List.mem_cons_self⟩]

theorem WritesHex.ne_nil {str : Text} {value : Nat} (writes : WritesHex str value) : str ≠ [] := by
  cases writes with
  | plain nonempty all => exact nonempty
  | prefixed mark nonempty all => exact List.cons_ne_nil _ _

/-- A number in hexadecimal digits ends at no zero byte. -/
theorem WritesHex.cstr {str : Text} {value : Nat} (writes : WritesHex str value) :
    cstr str = str := by
  have free : ∀ {digits : Text}, (∀ byte ∈ digits, isHexDigit byte = true) → 0 ∉ digits :=
    fun all member => absurd (all 0 member) (by decide)
  apply cstr_of_not_mem
  cases writes with
  | plain nonempty all => exact free all
  | @prefixed x digits mark nonempty all =>
      have zero : (0 : Byte) ≠ x := by
        rintro rfl
        rcases mark with same | same
        · cases same
        · cases same
      simp [free all, zero]

/-- An entry of a description: its name, the numbers of its base and its size,
and its compatible strings. -/
structure JsonEntry where
  name : Text
  base : Nat
  size : Nat
  compatible : List Text

/-- A node describes a device. -/
structure DescribesDevice (src : Ptree) (entry : JsonEntry) : Prop where
  name : src.get (text "name") [] = entry.name
  base : WritesHex (src.get (text "base") []) entry.base
  size : WritesHex (src.get (text "size") []) entry.size
  compatible : ∃ array, src.getChild (text "compatible") = .ok array ∧
    array.children.map (fun item => (item.1, item.2.data)) =
      entry.compatible.map fun str => ([], str)

/-- A document describes some devices behind an offset. -/
structure DescribesBus (root : Ptree) (offset : Nat) (entries : List JsonEntry) : Prop where
  offset : WritesHex (root.get (text "offset") (text "0")) offset
  devices : ∃ array, root.getChild (text "devices") = .ok array ∧
    List.Forall₂ DescribesDevice (array.children.map Prod.snd) entries

/-- A device is the one that its entry describes. -/
structure JsonEntry.Loaded (offset : Nat) (entry : JsonEntry) (dev : TreeDevice) : Prop where
  base : dev.mmap.onBusBaseAddr.toNat = offset + entry.base
  size : dev.mmap.onBusSize.toNat = entry.size
  spec : ∃ specs, entry.compatible.mapM HwioCompSpec.parse = .ok specs ∧
    dev.spec = specs.map fun spec => spec.nameSet entry.name

/-! ## The devices of a description -/

/-- The specifications of an array of compatible strings, under the name of its
entry. -/
theorem mapM_parseCompatible (name : Text) {items : List (Text × Ptree)} {compatible : List Text}
    (array : items.map (fun item => (item.1, item.2.data)) = compatible.map fun str => ([], str)) :
    items.mapM (parseCompatible name) =
      (calls (compatible.mapM fun str => HwioCompSpec.parse (cstr str))).map fun specs =>
        specs.map fun spec => spec.nameSet name := by
  induction items generalizing compatible with
  | nil =>
      obtain rfl := List.map_eq_nil_iff.mp array.symm
      rfl
  | cons item items before =>
      cases compatible with
      | nil => cases array
      | cons str compatible =>
          obtain ⟨same, rest⟩ := List.cons.inj array
          obtain ⟨key, data⟩ := Prod.mk.inj same
          have one : parseCompatible name item =
              (calls (HwioCompSpec.parse (cstr str))).map fun spec => spec.nameSet name := by
            rw [parseCompatible, if_neg (not_not_intro key), data]
            rfl
          rw [List.mapM_cons, List.mapM_cons, one, before rest]
          cases HwioCompSpec.parse (cstr str) with
          | error exn => rfl
          | ok spec => cases compatible.mapM fun str => HwioCompSpec.parse (cstr str) <;> rfl

/-- `parse_device` takes the base for the size and the size for the base. -/
theorem parseDevice_described {src : Ptree} {entry : JsonEntry} (describes : DescribesDevice src entry)
    (base : entry.base < 2 ^ 64) (size : entry.size < 2 ^ 64) (pageSize offset : UInt32)
    (memFilePath : Text) :
    parseDevice pageSize src offset memFilePath =
      (calls (entry.compatible.mapM fun str => HwioCompSpec.parse (cstr str))).map fun specs =>
        { name := []
          spec := specs.map fun spec => spec.nameSet entry.name
          mmap := HwioDeviceMmap.new pageSize (offset + UInt32.ofNat entry.size)
            (UInt32.ofNat entry.base) memFilePath } := by
  have ⟨array, found, items⟩ := describes.compatible
  unfold parseDevice
  simp only [if_neg describes.base.ne_nil, if_neg describes.size.ne_nil, found,
    stoul_of_writes describes.base base, stoul_of_writes describes.size size, describes.name, calls]
  show (array.children.mapM (parseCompatible entry.name) >>= _) = _
  rw [mapM_parseCompatible entry.name items]
  cases entry.compatible.mapM fun str => HwioCompSpec.parse (cstr str) <;> rfl

theorem loadDevices_eq {root array : Ptree} {offset : Nat}
    (number : stoul (cstr (root.get (text "offset") (text "0"))) = .ok offset)
    (found : root.getChild (text "devices") = .ok array) (pageSize : UInt32) :
    loadDevices pageSize root = array.children.mapM fun d =>
      parseDevice pageSize d.2 (UInt32.ofNat offset)
        (root.get (text "memfile") (text "/dev/mem")) := by
  unfold loadDevices
  simp only [number, found]
  rfl

theorem DescribesBus.number {root : Ptree} {offset : Nat} {entries : List JsonEntry}
    (describes : DescribesBus root offset entries) (small : offset < 2 ^ 64) :
    stoul (cstr (root.get (text "offset") (text "0"))) = .ok offset := by
  rw [describes.offset.cstr]
  exact stoul_of_writes describes.offset small

/-- A string is loaded as it stands. -/
def LoadsAsIs (str : Text) : Prop :=
  ∃ spec, HwioCompSpec.parse (cstr str) = .ok spec ∧ HwioCompSpec.parse str = .ok spec

theorem HwioCompSpec.parse_name {str : Text} {spec : HwioCompSpec}
    (parsed : HwioCompSpec.parse str = .ok spec) : spec.name = [] := by
  unfold HwioCompSpec.parse at parsed
  split at parsed
  · cases parsed
    rfl
  · cases parsed
    rfl
  · obtain ⟨parts, _, same⟩ := bind_eq_ok_iff.mp parsed
    cases same
    rfl
  · obtain ⟨parts, _, same⟩ := bind_eq_ok_iff.mp parsed
    cases same
    rfl

theorem loadsAsIs_iff (name : Text) (compatible : List Text) :
    (∃ loaded specs, compatible.mapM (fun str => HwioCompSpec.parse (cstr str)) = .ok loaded ∧
        compatible.mapM HwioCompSpec.parse = .ok specs ∧
        (loaded.map fun spec => spec.nameSet name) = specs.map fun spec => spec.nameSet name) ↔
      ∀ str ∈ compatible, LoadsAsIs str := by
  simp only [mapM_eq_ok_iff]
  induction compatible with
  | nil =>
      apply iff_of_true
      · exact ⟨[], [], .nil, .nil, rfl⟩
      · exact nofun
  | cons str compatible before =>
      rw [List.forall_mem_cons, ← before]
      constructor
      · rintro ⟨_, _, loads, parses, same⟩
        obtain ⟨first, loaded, left, lefts, rfl⟩ := List.forall₂_cons_left_iff.mp loads
        obtain ⟨second, specs, right, rights, rfl⟩ := List.forall₂_cons_left_iff.mp parses
        obtain ⟨heads, tails⟩ := List.cons.inj same
        refine ⟨⟨first, left, ?_⟩, loaded, specs, lefts, rights, tails⟩
        have names := (HwioCompSpec.parse_name left).trans (HwioCompSpec.parse_name right).symm
        have same : first = second := by
          cases first
          cases second
          simp only [HwioCompSpec.nameSet, HwioCompSpec.mk.injEq, true_and] at heads names ⊢
          exact ⟨names, heads⟩
        rw [right, same]
      · rintro ⟨⟨spec, left, right⟩, loaded, specs, lefts, rights, same⟩
        exact ⟨spec :: loaded, spec :: specs, .cons left lefts, .cons right rights, by
          rw [List.map_cons, List.map_cons, same]⟩

/-- The device of an entry is the described one just when its base and its size
are the same number. -/
theorem parseDevice_loaded_iff {src : Ptree} {entry : JsonEntry}
    (describes : DescribesDevice src entry) {offset : Nat}
    (fits : offset + entry.base + entry.size ≤ 2 ^ 32) (pageSize : UInt32) (memFilePath : Text) :
    (∃ dev, parseDevice pageSize src (UInt32.ofNat offset) memFilePath = .ok dev ∧
        entry.Loaded offset dev) ↔
      entry.base = entry.size ∧ offset + entry.base < 2 ^ 32 ∧
        ∀ str ∈ entry.compatible, LoadsAsIs str := by
  rw [parseDevice_described describes (by omega) (by omega), ← loadsAsIs_iff entry.name]
  have placed : ∀ specs : List HwioCompSpec, ∀ dev : TreeDevice, dev =
      { name := []
        spec := specs
        mmap := HwioDeviceMmap.new pageSize (UInt32.ofNat offset + UInt32.ofNat entry.size)
          (UInt32.ofNat entry.base) memFilePath } →
      (dev.mmap.onBusBaseAddr.toNat = offset + entry.base ∧ dev.mmap.onBusSize.toNat = entry.size ↔
        entry.base = entry.size ∧ offset + entry.base < 2 ^ 32) := by
    rintro specs dev rfl
    show (UInt32.ofNat offset + UInt32.ofNat entry.size).toNat = _ ∧
      (UInt32.ofNat entry.base).toNat = _ ↔ _
    rw [UInt32.toNat_add, UInt32.toNat_ofNat', UInt32.toNat_ofNat', UInt32.toNat_ofNat']
    omega
  constructor
  · rintro ⟨dev, loaded, base, size, specs, parsed, spec⟩
    cases result : entry.compatible.mapM fun str => HwioCompSpec.parse (cstr str) with
    | error exn =>
        rw [result] at loaded
        cases loaded
    | ok found =>
        rw [result] at loaded
        obtain same := (Except.ok.inj loaded).symm
        have ⟨equal, below⟩ := (placed _ dev same).mp ⟨base, size⟩
        refine ⟨equal, below, found, specs, rfl, parsed, ?_⟩
        rw [← spec, same]
  · rintro ⟨equal, below, found, specs, result, parsed, same⟩
    rw [result]
    have place := (placed (found.map fun spec => spec.nameSet entry.name) _ rfl).mpr ⟨equal, below⟩
    exact ⟨_, rfl, { base := place.1, size := place.2, spec := ⟨specs, parsed, same⟩ }⟩

theorem mapM_parseDevice_loaded_iff {items : List (Text × Ptree)} {entries : List JsonEntry}
    (described : List.Forall₂ DescribesDevice (items.map Prod.snd) entries) {offset : Nat}
    (fits : ∀ entry ∈ entries, offset + entry.base + entry.size ≤ 2 ^ 32) (pageSize : UInt32)
    (memFile : Text) :
    (∃ devices, items.mapM (fun d => parseDevice pageSize d.2 (UInt32.ofNat offset) memFile) =
        .ok devices ∧ List.Forall₂ (JsonEntry.Loaded offset) entries devices) ↔
      ∀ entry ∈ entries, entry.base = entry.size ∧ offset + entry.base < 2 ^ 32 ∧
        ∀ str ∈ entry.compatible, LoadsAsIs str := by
  simp only [mapM_eq_ok_iff]
  induction items generalizing entries with
  | nil =>
      obtain rfl := List.forall₂_nil_left_iff.mp described
      exact iff_of_true ⟨[], .nil, .nil⟩ nofun
  | cons item items before =>
      obtain ⟨entry, rest, one, others, rfl⟩ := List.forall₂_cons_left_iff.mp described
      have here := parseDevice_loaded_iff one (fits entry List.mem_cons_self) pageSize memFile
      have later := before others fun other member => fits other (List.mem_cons_of_mem entry member)
      rw [List.forall_mem_cons, ← here, ← later]
      constructor
      · rintro ⟨_, made, loaded⟩
        obtain ⟨dev, devices, first, makes, rfl⟩ := List.forall₂_cons_left_iff.mp made
        obtain ⟨head, tail⟩ := List.forall₂_cons.mp loaded
        exact ⟨⟨dev, first, head⟩, devices, makes, tail⟩
      · rintro ⟨⟨dev, first, head⟩, devices, makes, tail⟩
        exact ⟨dev :: devices, .cons first makes, .cons head tail⟩

/-- A description is loaded faithfully just when the base and the size of every
entry are the same number, its place is an address, and its strings are read to
their ends without an exception. -/
theorem json_loaded_faithfully_iff {root : Ptree} {offset : Nat} {entries : List JsonEntry}
    (describes : DescribesBus root offset entries) (small : offset ≤ 2 ^ 32)
    (fits : ∀ entry ∈ entries, offset + entry.base + entry.size ≤ 2 ^ 32) (pageSize : UInt32) :
    (∃ devices, loadDevices pageSize root = .ok devices ∧
        List.Forall₂ (JsonEntry.Loaded offset) entries devices) ↔
      ∀ entry ∈ entries, entry.base = entry.size ∧ offset + entry.base < 2 ^ 32 ∧
        ∀ str ∈ entry.compatible, LoadsAsIs str := by
  have ⟨array, found, described⟩ := describes.devices
  rw [loadDevices_eq (describes.number (by omega)) found]
  exact mapM_parseDevice_loaded_iff described fits pageSize _

/-- A JSON string -/
def Ptree.leaf (data : Text) : Ptree := .node data []

/-- A document with one device. -/
def oneEntry (base size : String) : Ptree :=
  .node [] [(text "offset", .leaf (text "40000000")), (text "devices", .node [] [([], .node []
    [(text "name", .leaf (text "dma")), (text "base", .leaf (text base)),
      (text "size", .leaf (text size)),
      (text "compatible", .node [] [([], .leaf (text "xlnx,axi-dma-1.2"))])])])]

/-- The device of the document. -/
def dmaEntry (base size : Nat) : JsonEntry := ⟨text "dma", base, size, [text "xlnx,axi-dma-1.2"]⟩

theorem dma_described {base size : String} {baseAddr sizeOf : Nat}
    (writesBase : WritesHex (text base) baseAddr) (writesSize : WritesHex (text size) sizeOf) :
    DescribesBus (oneEntry base size) 0x40000000 [dmaEntry baseAddr sizeOf] where
  offset := @WritesHex.plain (text "40000000") (by decide) (List.all_eq_true.mp (by decide))
  devices := ⟨_, rfl, .cons
    { name := rfl, base := writesBase, size := writesSize, compatible := ⟨_, rfl, rfl⟩ } .nil⟩

/-- Where the base is the size, the description is loaded. -/
theorem dma_loaded_faithfully :
    ∃ devices, loadDevices 4096 (oneEntry "0x1000" "0x1000") = .ok devices ∧
      List.Forall₂ (JsonEntry.Loaded 0x40000000) [dmaEntry 0x1000 0x1000] devices := by
  have writes : WritesHex (text "0x1000") 0x1000 :=
    @WritesHex.prefixed 120 (text "1000") (Or.inl rfl) (by decide)
      (List.all_eq_true.mp (by decide))
  apply (json_loaded_faithfully_iff (dma_described writes writes) (by decide) ?_ 4096).mpr
  · intro entry member
    obtain rfl := List.mem_singleton.mp member
    refine ⟨rfl, by decide, fun str inside => ?_⟩
    obtain rfl := List.mem_singleton.mp inside
    exact ⟨⟨[], text "xlnx", text "axi-dma", ⟨1, 2, -1⟩⟩, rfl, rfl⟩
  · intro entry member
    obtain rfl := List.mem_singleton.mp member
    decide

/-- A device of 4096 bytes behind the offset becomes one of no bytes. -/
theorem base_taken_for_size :
    DescribesBus (oneEntry "0" "1000") 0x40000000 [dmaEntry 0 0x1000] ∧
      ¬ ∃ devices, loadDevices 4096 (oneEntry "0" "1000") = .ok devices ∧
        List.Forall₂ (JsonEntry.Loaded 0x40000000) [dmaEntry 0 0x1000] devices := by
  have base : WritesHex (text "0") 0 :=
    @WritesHex.plain (text "0") (by decide) (List.all_eq_true.mp (by decide))
  have size : WritesHex (text "1000") 0x1000 :=
    @WritesHex.plain (text "1000") (by decide) (List.all_eq_true.mp (by decide))
  refine ⟨dma_described base size, ?_⟩
  rintro ⟨devices, loaded, described⟩
  obtain ⟨dev, rest, one, _, rfl⟩ := List.forall₂_cons_left_iff.mp described
  have result : (loadDevices 4096 (oneEntry "0" "1000")).toOption.map
      (fun devices => devices.map fun dev => dev.mmap.onBusSize) = some [0] := by decide +kernel
  rw [loaded] at result
  obtain ⟨none, _⟩ := List.cons.inj (Option.some.inj result)
  have size := one.size
  rw [show dev.mmap.onBusSize = 0 from none] at size
  cases size

end Hwio
