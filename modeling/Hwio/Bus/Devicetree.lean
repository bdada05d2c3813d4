import Hwio.Bus.CompSpec
import Hwio.Device.Mmap
import Hwio.Library.DirTree
import Hwio.Library.Iteration

/-!
Contract: `hwio_bus_devicetree.cpp`, the search for devices in a device tree.

Owns directory streams, the stacks of the search, the helpers that look into
the directory on top, `device_next`, and the constructor.

The stacks have their top first. A path is the list of its components; what
`file_path_from_stack` joins with slashes is taken apart again by the system.
-/

namespace Hwio

open Library

/-! ## Files -/

/-- What `stat` finds that is no directory with a name of its own; `dots` are
the entries for a directory itself and its parent. -/
inductive FileKind where
  | regular (content : List Byte)
  | special
  | dots
deriving DecidableEq, Repr

abbrev DirEntries := Entries Text FileKind

/-- `DIR`: all names of the directory, and those that `readdir` has yet to give. -/
structure Dir where
  names : List Text
  unread : List Text
deriving DecidableEq, Repr

/-- `rewinddir` -/
def Dir.rewind (dir : Dir) : Dir := { dir with unread := dir.names }

/-- `opendir` -/
def Dir.opened (entries : DirEntries) : Dir :=
  { names := entries.map Prod.fst, unread := entries.map Prod.fst }

/-- The device tree and what the constructor is told besides it. -/
structure DeviceTree where
  deviceTreePath : Text
  memPath : Text
  pageSize : UInt32
  root : DirEntries

/-- `hwio_device_mmap` with its name and its specifications. -/
structure TreeDevice where
  name : Text
  spec : List HwioCompSpec
  mmap : HwioDeviceMmap
deriving DecidableEq, Repr

/-- `hwio_device_mmap::name` -/
def TreeDevice.setName (dev : TreeDevice) (name : Text) : TreeDevice :=
  { dev with name := name, spec := dev.spec.map fun spec => spec.nameSet name }

/-- How the search stops short. -/
inductive TreeFailure where
  | assertion (expression : Text)
  | thrown (exn : Exn)
deriving DecidableEq, Repr

/-- `path_stack`, `dir_stack` and `top_dir_checked_for_dev` -/
structure Walk where
  pathStack : List Text
  dirStack : List Dir
  topDirCheckedForDev : Bool
deriving DecidableEq, Repr

variable (tree : DeviceTree)

/-! ## Paths -/

def filePathFromStack (pathStack : List Text) (fname : Text) : List Text :=
  pathStack.reverse ++ if fname = [] then [] else [fname]

/-- `path_stat`; the first component is the path of the device tree. -/
def pathStat (pathStack : List Text) (fname : Text) : Option (DirTree Text FileKind) :=
  (DirTree.dir tree.root).at (filePathFromStack pathStack fname).tail

def pathIsFile (pathStack : List Text) (fname : Text) : Bool :=
  match pathStat tree pathStack fname with
  | some (.leaf (.regular _)) => true
  | _ => false

def pathIsDir (pathStack : List Text) (fname : Text) : Bool :=
  match pathStat tree pathStack fname with
  | some (.dir _) | some (.leaf .dots) => true
  | _ => false

/-- `device_tree_format_err` -/
def deviceTreeFormatErr (what : Text) : Exn := ⟨true, what⟩

/-- `path_fopen` and `file_read` -/
def fileRead (pathStack : List Text) (fname : Text) : Except Exn (List Byte) :=
  match pathStat tree pathStack fname with
  | some (.leaf (.regular content)) => .ok content
  | _ => .error (deviceTreeFormatErr (text "Can not open file"))

/-- The loop of `dir_has_file` over the names that `readdir` gives. -/
def dirHasFileLoop (pathStack : List Text) (fname : Text) : List Text → Bool
  | [] => false
  | dName :: unread =>
      if dName ≠ fname then dirHasFileLoop pathStack fname unread
      else if pathIsFile tree pathStack fname then true
      else dirHasFileLoop pathStack fname unread

def dirHasFile (pathStack : List Text) (curr : Dir) (fname : Text) : Bool × Dir :=
  let curr := curr.rewind
  (dirHasFileLoop tree pathStack fname curr.unread, curr.rewind)

/-! ## Parsing a directory -/

/-- The loop of `reverse_endianity` from its current `val` and `tmp`. -/
def reverseEndianityLoop : Nat → UInt32 → UInt32 → UInt32
  | 0, _, tmp => tmp
  | count + 1, val, tmp => reverseEndianityLoop count (val >>> 8) (tmp <<< 8 ||| val &&& 0xff)

def reverseEndianity (val : UInt32) : UInt32 := reverseEndianityLoop 4 val 0

def devParseReg (pathStack : List Text) (fname : Text) : Except Exn (UInt32 × UInt32) := do
  let content ← fileRead tree pathStack fname
  let length := content.length
  if length ≠ 2 * 4 then
    let fp := List.intercalate (text "/") (filePathFromStack pathStack fname)
    throw (deviceTreeFormatErr (text "Base and size has different size than expected (" ++
      decimal length ++ text "B), 32b/64b system problem: " ++ fp))
  let base := loadU32 content 0
  let size := loadU32 content (length / 2)
  return (reverseEndianity base, reverseEndianity size)

/-- `strlen` of the text at the start of a memory -/
def strlen (memory : List Byte) : Nat := (memory.takeWhile fun byte => byte ≠ 0).length

/-- The loop of `dev_parse_compat`; `content` ends with the NUL that `file_read`
puts behind the `length` bytes of the file. -/
def compatLoop (content : List Byte) (length : Nat) : Nat → Nat → List Text
  | 0, _ => []
  | fuel + 1, actualLength =>
      if actualLength < length then
        let actual := content.drop actualLength
        let l := strlen actual
        actual.take l :: compatLoop content length fuel (actualLength + l + 1)
      else []

/-- Each string moves on by a byte at least, so `length` rounds are enough. -/
def compatibilityStrings (file : List Byte) : List Text :=
  compatLoop (file ++ [0]) file.length file.length 0

def devParseCompat (pathStack : List Text) (fname : Text) : Except Exn (List Text) := do
  let file ← fileRead tree pathStack fname
  return compatibilityStrings file

/-- The loop of `dev_from_dir` from its current `base`, `size` and `spec`; no
result is the return for a `reg` in another format. -/
def devFromDirLoop (pathStack : List Text) : List Text → UInt32 → UInt32 → List HwioCompSpec →
    Except Exn (Option (UInt32 × UInt32 × List HwioCompSpec))
  | [], base, size, spec => .ok (some (base, size, spec))
  | dName :: unread, base, size, spec =>
      if !pathIsFile tree pathStack dName then devFromDirLoop pathStack unread base size spec
      else if dName = text "reg" then
        match devParseReg tree pathStack (text "reg") with
        | .error _ => .ok none
        | .ok (base, size) => devFromDirLoop pathStack unread base size spec
      else if dName = text "compatible" then do
        let compatibilityStrings ← devParseCompat tree pathStack (text "compatible")
        let specs ← compatibilityStrings.mapM HwioCompSpec.parse
        devFromDirLoop pathStack unread base size (spec ++ specs)
      else devFromDirLoop pathStack unread base size spec

def devFromDir (pathStack : List Text) (curr : Dir) :
    Except TreeFailure (Option TreeDevice × Dir) :=
  match pathStack with
  | [] | [_] => .error (.assertion (text "path_stack.size() > 1"))
  | name :: _ :: _ =>
      let curr := curr.rewind
      match devFromDirLoop tree pathStack curr.unread 0 0 [] with
      | .error exn => .error (.thrown exn)
      | .ok none => .ok (none, curr.rewind)
      | .ok (some (base, size, spec)) =>
          let mmap := HwioDeviceMmap.new tree.pageSize base size tree.memPath
          let dev : TreeDevice := { name := [], spec := spec, mmap := mmap }
          .ok (some (dev.setName name), curr.rewind)

/-! ## The search -/

/-- The loop of `go_next_dir`: the directory that it comes to and the names
behind it. -/
def goNextDirLoop (pathStack : List Text) : List Text → Option (Text × List Text)
  | [] => none
  | dName :: unread =>
      if dName = text "." ∨ dName = text ".." then goNextDirLoop pathStack unread
      else if pathIsDir tree pathStack dName then some (dName, unread)
      else goNextDirLoop pathStack unread

/-- `opendir_on_stack` -/
def opendirOnStack (walk : Walk) : Except Exn Walk :=
  match pathStat tree walk.pathStack [] with
  | some (.dir entries) => .ok { walk with dirStack := Dir.opened entries :: walk.dirStack }
  | _ => .error (deviceTreeFormatErr (text "Can not open dir on stack" ++
      List.intercalate (text "/") (filePathFromStack walk.pathStack [])))

/-- `go_next_dir` of the directory on top, which is above the ones `below`. -/
def goNextDir (walk : Walk) (curr : Dir) (below : List Dir) : Except Exn (Option Walk) :=
  match goNextDirLoop tree walk.pathStack curr.unread with
  | none => .ok none
  | some (dName, unread) => do
      let walk ← opendirOnStack tree
        { pathStack := dName :: walk.pathStack
          dirStack := { curr with unread := unread } :: below
          topDirCheckedForDev := false }
      return some walk

/-- The body of `device_next`; `again` is its call of itself. -/
def deviceNextBody (walk : Walk) : Round Walk TreeDevice TreeFailure :=
  match walk.dirStack with
  | [] => .ends walk
  | actualDir :: below =>
      if !walk.topDirCheckedForDev then
        let (hasReg, actualDir) := dirHasFile tree walk.pathStack actualDir (text "reg")
        let walk := { walk with topDirCheckedForDev := true, dirStack := actualDir :: below }
        if hasReg then
          match devFromDir tree walk.pathStack actualDir with
          | .error failure => .fails failure
          | .ok (dev, actualDir) =>
              let walk := { walk with dirStack := actualDir.rewind :: below }
              match dev with
              | some dev => .yields dev walk
              | none => .again walk
        else .again walk
      else
        match goNextDir tree walk actualDir below with
        | .error exn => .fails (.thrown exn)
        | .ok (some walk) => .again walk
        | .ok none => .again { walk with pathStack := walk.pathStack.tail, dirStack := below }

/-! ## The constructor -/

/-- `devAddrCmp` -/
def devAddrCmp (a b : TreeDevice) : Bool := a.mmap.onBusBaseAddr < b.mmap.onBusBaseAddr

/-- A comparison that `std::sort` may be given. -/
structure StrictWeak {Item : Type} (less : Item → Item → Bool) : Prop where
  asymmetric : ∀ {first second : Item}, less first second = true → less second first = false
  transitive : ∀ {first second third : Item}, less second first = false →
    less third second = false → less third first = false

/-- `std::sort`: a permutation in which no element is less than an earlier one;
in which order it leaves equal elements is not said. -/
structure StdSort (Item : Type) where
  sort : (Item → Item → Bool) → List Item → List Item
  perm : ∀ {less : Item → Item → Bool}, StrictWeak less →
    ∀ items, (sort less items).Perm items
  sorted : ∀ {less : Item → Item → Bool}, StrictWeak less →
    ∀ items, (sort less items).Pairwise fun earlier later => less later earlier = false

structure HwioBusDevicetree where
  walk : Walk
  allDevices : List TreeDevice
deriving DecidableEq, Repr

/-- The stacks when the root directory is open. -/
def HwioBusDevicetree.start : Walk where
  pathStack := [tree.deviceTreePath]
  dirStack := [Dir.opened tree.root]
  topDirCheckedForDev := false

/-- The loop over `device_next` of the constructor. -/
def HwioBusDevicetree.devices (fuel : Nat) :
    Option (Except TreeFailure (List TreeDevice × Walk)) :=
  drain (deviceNextBody tree) fuel (start tree)

/-- The constructor; `none` is no result within `fuel` calls. -/
def HwioBusDevicetree.new (sort : StdSort TreeDevice) (fuel : Nat) :
    Option (Except TreeFailure HwioBusDevicetree) :=
  match devices tree fuel with
  | none => none
  | some (.error failure) => some (.error failure)
  | some (.ok (devices, walk)) =>
      if walk.dirStack.length = 0 then
        some (.ok
          { walk := { walk with pathStack := [] }
            allDevices := sort.sort devAddrCmp devices })
      else some (.error (.assertion (text "dir_stack.size() == 0")))

end Hwio
