import Hwio.Bus.Devicetree

/-!
Contract: what a search through a device tree finds.

Owns the devices that a tree describes, the invariant of the search, and the
result of the constructor for every readable tree.

Does not own how the system orders the entries of a directory.
-/

namespace Hwio

open Library

/-! ## Addresses -/

/-- One round of `reverse_endianity` puts the lowest byte of `val` behind `tmp`. -/
theorem reverse_round {tmp : UInt32} {byte : Byte} {above : Nat}
    (fits : tmp.toNat * 256 + byte.toNat < 2 ^ 32) :
    (tmp <<< 8 ||| UInt32.ofNat (byte.toNat + 256 * above) &&& 0xff).toNat =
      tmp.toNat * 256 + byte.toNat := by
  have small : byte.toNat < 2 ^ 8 := byte.toNat_lt
  have high : (tmp <<< 8).toNat = tmp.toNat <<< 8 := by
    have moved : tmp.toNat <<< 8 = tmp.toNat * 256 := Nat.shiftLeft_eq _ _
    have inside : tmp.toNat <<< 8 < 2 ^ 32 := by
      rw [moved]
      exact Nat.lt_of_le_of_lt (Nat.le_add_right _ _) fits
    exact (UInt32.toNat_shiftLeft tmp 8).trans (Nat.mod_eq_of_lt inside)
  have low : (UInt32.ofNat (byte.toNat + 256 * above) &&& 0xff).toNat = byte.toNat := by
    rw [UInt32.toNat_and, UInt32.toNat_ofNat']
    show _ &&& (2 ^ 8 - 1) = _
    rw [Nat.and_two_pow_sub_one_eq_mod]
    omega
  rw [UInt32.toNat_or, high, low, ← Nat.shiftLeft_add_eq_or_of_lt small, Nat.shiftLeft_eq]

theorem reverseEndianityLoop_eq (bytes : List Byte) (tmp : UInt32)
    (fits : (tmp.toNat + 1) * 256 ^ bytes.length ≤ 2 ^ 32) :
    reverseEndianityLoop bytes.length (UInt32.ofNat (leNat bytes)) tmp =
      UInt32.ofNat (bytes.foldl (fun value byte => value * 256 + byte.toNat) tmp.toNat) := by
  induction bytes generalizing tmp with
  | nil => exact UInt32.ofNat_toNat.symm
  | cons byte rest before =>
      have small := byte.toNat_lt
      have below := leNat_lt rest
      rw [List.length_cons, Nat.pow_succ] at fits
      have positive : 0 < 256 ^ rest.length := Nat.pow_pos (by decide)
      have room : (tmp.toNat * 256 + byte.toNat + 1) * 256 ^ rest.length ≤ 2 ^ 32 := by
        calc (tmp.toNat * 256 + byte.toNat + 1) * 256 ^ rest.length
            ≤ ((tmp.toNat + 1) * 256) * 256 ^ rest.length := Nat.mul_le_mul_right _ (by omega)
          _ = (tmp.toNat + 1) * (256 ^ rest.length * 256) := by
              rw [Nat.mul_assoc, Nat.mul_comm 256]
          _ ≤ 2 ^ 32 := fits
      have inside : tmp.toNat * 256 + byte.toNat < 2 ^ 32 :=
        calc tmp.toNat * 256 + byte.toNat
            < (tmp.toNat * 256 + byte.toNat + 1) * 1 := by omega
          _ ≤ (tmp.toNat * 256 + byte.toNat + 1) * 256 ^ rest.length :=
              Nat.mul_le_mul_left _ positive
          _ ≤ 2 ^ 32 := room
      have round := @reverse_round tmp byte (leNat rest) inside
      have whole : byte.toNat + 256 * leNat rest < 2 ^ 32 := by
        have : 256 * 256 ^ rest.length ≤ 2 ^ 32 := by
          calc 256 * 256 ^ rest.length = 1 * (256 ^ rest.length * 256) := by
                rw [Nat.one_mul, Nat.mul_comm]
            _ ≤ (tmp.toNat + 1) * (256 ^ rest.length * 256) :=
                Nat.mul_le_mul_right _ (by omega)
            _ ≤ 2 ^ 32 := fits
        omega
      have shifted : UInt32.ofNat (byte.toNat + 256 * leNat rest) >>> 8 =
          UInt32.ofNat (leNat rest) := by
        apply UInt32.toNat_inj.mp
        rw [UInt32.toNat_shiftRight, UInt32.toNat_ofNat', UInt32.toNat_ofNat']
        show _ >>> 8 = _
        rw [Nat.shiftRight_eq_div_pow]
        omega
      rw [List.length_cons, reverseEndianityLoop, leNat, shifted, before _ (by rw [round]; exact room),
        round, List.foldl_cons]

/-- On a little-endian host, `reverse_endianity` reads a word from its highest
byte to its lowest. -/
theorem reverseEndianity_loadU32 (memory : List Byte) (offset : Nat) :
    reverseEndianity (loadU32 memory offset) = UInt32.ofNat (beNat (load memory offset 4)) := by
  have loop := reverseEndianityLoop_eq (load memory offset 4) 0
  rw [load_length] at loop
  exact loop (by decide)

/-! ## What a tree describes -/

/-- The names in a directory: they differ, and exactly "." and ".." lead to the
directory itself and to its parent. -/
structure IsDirectory (entries : DirEntries) : Prop where
  named : Named entries
  nonempty : ∀ kind ∈ kinds entries, kind.1 ≠ []
  dots : ∀ kind ∈ kinds entries, (kind.1 = text "." ∨ kind.1 = text "..") ↔ kind.2 = some .dots

/-- The content of a regular file of a directory. -/
def fileIn (entries : DirEntries) (name : Text) : Option (List Byte) :=
  match child entries name with
  | some (.leaf (.regular content)) => some content
  | _ => none

/-- The specifications in the `compatible` of a directory. -/
def specsOf (entries : DirEntries) : Except Exn (List HwioCompSpec) :=
  match fileIn entries (text "compatible") with
  | none => .ok []
  | some file => (compatibilityStrings file).mapM HwioCompSpec.parse

/-- The base and the size in a `reg` of eight bytes. -/
def regWords (content : List Byte) : Option (UInt32 × UInt32) :=
  if content.length = 8 then
    some (UInt32.ofNat (beNat (load content 0 4)), UInt32.ofNat (beNat (load content 4 4)))
  else none

/-- The device that a directory describes. -/
def deviceOf (tree : DeviceTree) (dir : Text × DirEntries) : Option TreeDevice :=
  match (fileIn dir.2 (text "reg")).bind regWords, specsOf dir.2 with
  | some (base, size), .ok specs =>
      some
        { name := dir.1
          spec := specs.map fun spec => spec.nameSet dir.1
          mmap := HwioDeviceMmap.new tree.pageSize base size tree.memPath }
  | _, _ => none

/-- A tree with regular files and directories that can all be read, without a
`reg` in its root. -/
structure Readable (tree : DeviceTree) : Prop where
  directories : Everywhere IsDirectory tree.root
  noReg : fileIn tree.root (text "reg") = none
  parses : Everywhere (fun entries => ∃ specs, specsOf entries = .ok specs) tree.root

/-- The strings that are read on the way through the names of a directory; a
`reg` in another format ends it. -/
def stringsRead (entries : DirEntries) : List Text → List Text
  | [] => []
  | name :: names =>
      match fileIn entries name with
      | none => stringsRead entries names
      | some file =>
          if name = text "reg" then if file.length = 8 then stringsRead entries names else []
          else if name = text "compatible" then
            compatibilityStrings file ++ stringsRead entries names
          else stringsRead entries names

/-- The compatible strings that are read in a directory: none without a `reg`. -/
def compatibleRead (entries : DirEntries) : List Text :=
  if (fileIn entries (text "reg")).isSome then stringsRead entries (entries.map Prod.fst) else []

/-- All strings that are read give specifications. -/
def Parses (strings : List Text) : Prop := ∀ str ∈ strings, ∃ spec, HwioCompSpec.parse str = .ok spec

/-- A tree that can be gone through: only what is read in it has to be a
specification. -/
structure Loadable (tree : DeviceTree) : Prop where
  directories : Everywhere IsDirectory tree.root
  noReg : fileIn tree.root (text "reg") = none
  parses : Everywhere (fun entries => Parses (compatibleRead entries)) tree.root

variable {tree : DeviceTree}

/-! ## Paths of open directories -/

/-- A directory is open under a path. -/
def OpenAt (tree : DeviceTree) (pathStack : List Text) (entries : DirEntries) : Prop :=
  pathStack ≠ [] ∧ pathStat tree pathStack [] = some (.dir entries)

theorem OpenAt.root (tree : DeviceTree) (name : Text) : OpenAt tree [name] tree.root :=
  ⟨nofun, rfl⟩

namespace OpenAt

variable {pathStack : List Text} {entries : DirEntries} (openAt : OpenAt tree pathStack entries)

include openAt

theorem stat {fname : Text} (nonempty : fname ≠ []) :
    pathStat tree pathStack fname = child entries fname := by
  have ⟨inside, found⟩ := openAt
  rw [pathStat, filePathFromStack, if_pos rfl, List.append_nil] at found
  rw [pathStat, filePathFromStack, if_neg nonempty,
    List.tail_append_of_ne_nil (List.reverse_ne_nil_iff.mpr inside)]
  exact DirTree.at_snoc found fname

/-- A directory of an open directory can be opened in turn. -/
theorem push {fname : Text} (nonempty : fname ≠ []) {sub : DirEntries}
    (found : child entries fname = some (.dir sub)) : OpenAt tree (fname :: pathStack) sub := by
  refine ⟨nofun, ?_⟩
  have path : filePathFromStack (fname :: pathStack) [] = filePathFromStack pathStack fname := by
    rw [filePathFromStack, filePathFromStack, if_pos rfl, if_neg nonempty, List.append_nil,
      List.reverse_cons]
  rw [pathStat, path, ← pathStat, openAt.stat nonempty, found]

theorem isFile {fname : Text} (nonempty : fname ≠ []) :
    pathIsFile tree pathStack fname = (fileIn entries fname).isSome := by
  rw [pathIsFile, openAt.stat nonempty, fileIn]
  rcases child entries fname with _ | ⟨_ | _ | _⟩ | _ <;> rfl

theorem fileRead {fname : Text} (nonempty : fname ≠ []) {content : List Byte}
    (found : fileIn entries fname = some content) :
    fileRead tree pathStack fname = .ok content := by
  rw [Hwio.fileRead, openAt.stat nonempty]
  rw [fileIn] at found
  rcases regular : child entries fname with _ | ⟨bytes | _ | _⟩ | _
  all_goals rw [regular] at found
  case some.leaf.regular => exact congrArg Except.ok (Option.some.inj found)
  all_goals exact nomatch found

/-- Every property of all directories holds of an open one. -/
theorem everywhere {holds : DirEntries → Prop} (everywhere : Everywhere holds tree.root) :
    holds entries := everywhere.at openAt.2

end OpenAt

/-! ## Looking into a directory -/

theorem fileIn_name {entries : DirEntries} {fname : Text} {content : List Byte}
    (found : fileIn entries fname = some content) : fname ∈ entries.map Prod.fst := by
  rw [fileIn] at found
  split at found
  next regular => exact List.mem_map_of_mem (f := Prod.fst) (mem_of_child regular)
  · exact nomatch found

theorem dirHasFileLoop_eq (pathStack : List Text) (fname : Text) (names : List Text) :
    dirHasFileLoop tree pathStack fname names =
      (decide (fname ∈ names) && pathIsFile tree pathStack fname) := by
  induction names with
  | nil => rfl
  | cons dName unread before =>
      rw [dirHasFileLoop, before]
      by_cases same : dName = fname
      · rw [if_neg (not_not.mpr same), same, decide_eq_true List.mem_cons_self]
        cases pathIsFile tree pathStack fname <;> simp
      · have other : ¬ fname = dName := fun equal => same equal.symm
        simp only [if_pos same, List.mem_cons, other, false_or]

theorem OpenAt.hasFile {pathStack : List Text} {entries : DirEntries}
    (openAt : OpenAt tree pathStack entries) {fname : Text} (nonempty : fname ≠ []) {dir : Dir}
    (names : dir.names = entries.map Prod.fst) :
    dirHasFile tree pathStack dir fname = ((fileIn entries fname).isSome, dir.rewind) := by
  have loop := @dirHasFileLoop_eq tree pathStack fname dir.names
  rw [openAt.isFile nonempty] at loop
  have found : (decide (fname ∈ dir.names) && (fileIn entries fname).isSome) =
      (fileIn entries fname).isSome := by
    cases file : fileIn entries fname with
    | none => exact Bool.and_false _
    | some content =>
        rw [names, decide_eq_true (fileIn_name file)]
        rfl
  rw [found] at loop
  show (dirHasFileLoop tree pathStack fname dir.names, dir.rewind) = _
  rw [loop]

/-! ## Parsing a directory -/

/-- `reg` gives its two words when it has eight bytes and is refused otherwise. -/
theorem OpenAt.parseReg {pathStack : List Text} {entries : DirEntries}
    (openAt : OpenAt tree pathStack entries) {content : List Byte}
    (found : fileIn entries (text "reg") = some content) :
    (devParseReg tree pathStack (text "reg")).toOption = regWords content := by
  rw [devParseReg, openAt.fileRead (by decide) found]
  by_cases eight : content.length = 8
  · rw [regWords, if_pos eight]
    show (if content.length ≠ 2 * 4 then _ else _ : Except Exn (UInt32 × UInt32)).toOption = _
    rw [if_neg (not_not.mpr eight), eight, reverseEndianity_loadU32, reverseEndianity_loadU32]
    rfl
  · rw [regWords, if_neg eight]
    show (if content.length ≠ 2 * 4 then _ else _ : Except Exn (UInt32 × UInt32)).toOption = _
    rw [if_pos eight]
    rfl

/-- The words after `reg` was read, if it was. -/
def wordsAfter (entries : DirEntries) (names : List Text) (words : UInt32 × UInt32) :
    Option (UInt32 × UInt32) :=
  if text "reg" ∈ names then (fileIn entries (text "reg")).elim (some words) regWords
  else some words

/-- The specifications that `compatible` adds, once it was read. -/
def specsAfter (names : List Text) (specs : List HwioCompSpec) : List HwioCompSpec :=
  if text "compatible" ∈ names then specs else []

theorem wordsAfter_other {entries : DirEntries} {dName : Text} {names : List Text}
    (other : dName ≠ text "reg") (words : UInt32 × UInt32) :
    wordsAfter entries (dName :: names) words = wordsAfter entries names words := by
  simp only [wordsAfter, List.mem_cons, other.symm, false_or]

theorem specsAfter_other {dName : Text} {names : List Text} (other : dName ≠ text "compatible")
    (specs : List HwioCompSpec) : specsAfter (dName :: names) specs = specsAfter names specs := by
  simp only [specsAfter, List.mem_cons, other.symm, false_or]

theorem wordsAfter_absent {entries : DirEntries} {names : List Text}
    (absent : text "reg" ∉ names) (words : UInt32 × UInt32) :
    wordsAfter entries names words = some words := if_neg absent

theorem specsAfter_absent {names : List Text} (absent : text "compatible" ∉ names)
    (specs : List HwioCompSpec) : specsAfter names specs = [] := if_neg absent

/-- A `reg` gives the base and the size, or ends the loop. -/
theorem OpenAt.fromReg {pathStack : List Text} {entries : DirEntries}
    (openAt : OpenAt tree pathStack entries) {content : List Byte}
    (found : fileIn entries (text "reg") = some content) (names : List Text) (base size : UInt32)
    (spec : List HwioCompSpec) :
    devFromDirLoop tree pathStack (text "reg" :: names) base size spec =
      match regWords content with
      | none => .ok none
      | some (base, size) => devFromDirLoop tree pathStack names base size spec := by
  have isFile : pathIsFile tree pathStack (text "reg") = (fileIn entries (text "reg")).isSome :=
    openAt.isFile (by decide)
  rw [found] at isFile
  rw [devFromDirLoop, isFile, if_neg nofun, if_pos rfl, ← openAt.parseReg found]
  cases devParseReg tree pathStack (text "reg") <;> rfl

/-- A `compatible` adds its specifications. -/
theorem OpenAt.fromCompatible {pathStack : List Text} {entries : DirEntries}
    (openAt : OpenAt tree pathStack entries) {file : List Byte}
    (found : fileIn entries (text "compatible") = some file) (names : List Text)
    (base size : UInt32) (spec : List HwioCompSpec) :
    devFromDirLoop tree pathStack (text "compatible" :: names) base size spec = (do
      let specs ← (compatibilityStrings file).mapM HwioCompSpec.parse
      devFromDirLoop tree pathStack names base size (spec ++ specs)) := by
  have isFile : pathIsFile tree pathStack (text "compatible") =
      (fileIn entries (text "compatible")).isSome := openAt.isFile (by decide)
  have strings : devParseCompat tree pathStack (text "compatible") =
      .ok (compatibilityStrings file) := by
    rw [devParseCompat, openAt.fileRead (by decide) found]
    rfl
  rw [found] at isFile
  rw [devFromDirLoop, isFile, if_neg nofun, if_neg (by decide), if_pos rfl, strings]
  rfl

/-- Any other name is passed. -/
theorem OpenAt.fromOther {pathStack : List Text} {entries : DirEntries}
    (openAt : OpenAt tree pathStack entries) {name : Text} (nonempty : name ≠ [])
    (other : fileIn entries name = none ∨ name ≠ text "reg" ∧ name ≠ text "compatible")
    (names : List Text) (base size : UInt32) (spec : List HwioCompSpec) :
    devFromDirLoop tree pathStack (name :: names) base size spec =
      devFromDirLoop tree pathStack names base size spec := by
  rw [devFromDirLoop, openAt.isFile nonempty]
  cases found : fileIn entries name with
  | none => rfl
  | some file =>
      have ⟨notReg, notCompatible⟩ := other.resolve_left (by rw [found]; exact nofun)
      rw [if_neg nofun, if_neg notReg, if_neg notCompatible]

/-- Whatever the order of the names, the loop reads `reg` and `compatible`. -/
theorem OpenAt.fromDirLoop {pathStack : List Text} {entries : DirEntries}
    (openAt : OpenAt tree pathStack entries) {specs : List HwioCompSpec}
    (parses : specsOf entries = .ok specs) (names : List Text) (distinct : names.Nodup)
    (nonempty : ∀ name ∈ names, name ≠ []) (base size : UInt32) (spec : List HwioCompSpec) :
    devFromDirLoop tree pathStack names base size spec =
      .ok ((wordsAfter entries names (base, size)).map fun words =>
        (words.1, words.2, spec ++ specsAfter names specs)) := by
  induction names generalizing base size spec with
  | nil =>
      show _ = Except.ok (some (base, size, spec ++ []))
      rw [List.append_nil]
      rfl
  | cons dName unread before =>
      have ⟨absent, others⟩ := List.nodup_cons.mp distinct
      have rest := before others fun name member => nonempty name (List.mem_cons_of_mem _ member)
      have passed := openAt.fromOther (nonempty dName List.mem_cons_self)
      cases found : fileIn entries dName with
      | none =>
          rw [passed (Or.inl found), rest]
          have words : wordsAfter entries (dName :: unread) (base, size) =
              wordsAfter entries unread (base, size) := by
            by_cases isReg : dName = text "reg"
            · subst isReg
              rw [wordsAfter_absent absent, wordsAfter, if_pos List.mem_cons_self, found]
              rfl
            · exact wordsAfter_other isReg _
          have more : specsAfter (dName :: unread) specs = specsAfter unread specs := by
            by_cases isCompatible : dName = text "compatible"
            · subst isCompatible
              rw [specsOf, found] at parses
              rw [← Except.ok.inj parses, specsAfter, specsAfter, ite_self, ite_self]
            · exact specsAfter_other isCompatible _
          rw [words, more]
      | some content =>
          by_cases isReg : dName = text "reg"
          · subst isReg
            have words : wordsAfter entries (text "reg" :: unread) (base, size) =
                regWords content := by
              rw [wordsAfter, if_pos List.mem_cons_self, found]
              rfl
            rw [openAt.fromReg found, words, specsAfter_other (by decide)]
            cases regWords content with
            | none => rfl
            | some read =>
                show devFromDirLoop tree pathStack unread read.1 read.2 spec = _
                rw [rest, wordsAfter_absent absent]
          · by_cases isCompatible : dName = text "compatible"
            · subst isCompatible
              have parsed : (compatibilityStrings content).mapM HwioCompSpec.parse = .ok specs := by
                rw [specsOf, found] at parses
                exact parses
              have more : specsAfter (text "compatible" :: unread) specs = specs :=
                if_pos List.mem_cons_self
              rw [openAt.fromCompatible found, parsed, wordsAfter_other isReg, more]
              show devFromDirLoop tree pathStack unread base size (spec ++ specs) = _
              rw [rest, specsAfter_absent absent, List.append_nil]
            · rw [passed (Or.inr ⟨isReg, isCompatible⟩), rest, wordsAfter_other isReg,
                specsAfter_other isCompatible]

theorem stringsRead_other {entries : DirEntries} {name : Text}
    (other : fileIn entries name = none ∨ name ≠ text "reg" ∧ name ≠ text "compatible")
    (names : List Text) : stringsRead entries (name :: names) = stringsRead entries names := by
  rw [stringsRead]
  cases found : fileIn entries name with
  | none => rfl
  | some file =>
      have ⟨notReg, notCompatible⟩ := other.resolve_left (by rw [found]; exact nofun)
      simp only [if_neg notReg, if_neg notCompatible]

theorem stringsRead_reg {entries : DirEntries} {content : List Byte}
    (found : fileIn entries (text "reg") = some content) (names : List Text) :
    stringsRead entries (text "reg" :: names) =
      if (regWords content).isSome then stringsRead entries names else [] := by
  rw [stringsRead, found, regWords]
  by_cases eight : content.length = 8
  · simp only [if_true, if_pos eight, Option.isSome_some]
  · simp only [if_true, if_neg eight, Option.isSome_none, Bool.false_eq_true, if_false]

theorem stringsRead_compatible {entries : DirEntries} {file : List Byte}
    (found : fileIn entries (text "compatible") = some file) (names : List Text) :
    stringsRead entries (text "compatible" :: names) =
      compatibilityStrings file ++ stringsRead entries names := by
  rw [stringsRead, found]
  exact if_neg (by decide)

/-- Only strings of the file are read. -/
theorem mem_stringsRead {entries : DirEntries} {names : List Text} {str : Text}
    (member : str ∈ stringsRead entries names) :
    ∃ file, fileIn entries (text "compatible") = some file ∧ str ∈ compatibilityStrings file := by
  induction names with
  | nil => cases member
  | cons name names before =>
      cases found : fileIn entries name with
      | none => exact before (stringsRead_other (Or.inl found) names ▸ member)
      | some file =>
          by_cases isReg : name = text "reg"
          · subst isReg
            rw [stringsRead_reg found] at member
            split at member
            · exact before member
            · cases member
          · by_cases isCompatible : name = text "compatible"
            · subst isCompatible
              rw [stringsRead_compatible found] at member
              exact (List.mem_append.mp member).elim (fun here => ⟨file, found, here⟩) before
            · exact before (stringsRead_other (Or.inr ⟨isReg, isCompatible⟩) names ▸ member)

/-- Where the file is a list of specifications, so is what is read of it. -/
theorem Parses.of_specsOf {entries : DirEntries} (parses : ∃ specs, specsOf entries = .ok specs)
    (names : List Text) : Parses (stringsRead entries names) := by
  intro str member
  have ⟨file, found, inside⟩ := mem_stringsRead member
  rw [specsOf, found] at parses
  exact exists_mapM_ok_iff.mp parses str inside

theorem Readable.loadable (readable : Readable tree) : Loadable tree where
  directories := readable.directories
  noReg := readable.noReg
  parses := by
    have one : ∀ {entries : DirEntries}, (∃ specs, specsOf entries = .ok specs) →
        Parses (compatibleRead entries) := by
      intro entries parses
      rw [compatibleRead]
      split
      · exact Parses.of_specsOf parses _
      · exact nofun
    exact ⟨one readable.parses.1, fun dir member => one (readable.parses.below member)⟩

/-- Where what is read are specifications but the whole file is not, a `reg` in
another format comes first. -/
theorem OpenAt.fromDirLoop_stops {pathStack : List Text} {entries : DirEntries}
    (openAt : OpenAt tree pathStack entries) {exn : Exn} (wrong : specsOf entries = .error exn)
    (names : List Text) (nonempty : ∀ name ∈ names, name ≠ [])
    (inside : text "compatible" ∈ names) (reads : Parses (stringsRead entries names))
    (base size : UInt32) (spec : List HwioCompSpec) :
    devFromDirLoop tree pathStack names base size spec = .ok none := by
  induction names generalizing base size spec with
  | nil => cases inside
  | cons name names before =>
      have later := before fun other member => nonempty other (List.mem_cons_of_mem _ member)
      have passed := openAt.fromOther (nonempty name List.mem_cons_self)
      by_cases isCompatible : name = text "compatible"
      · subst isCompatible
        cases found : fileIn entries (text "compatible") with
        | none =>
            rw [specsOf, found] at wrong
            cases wrong
        | some file =>
            rw [specsOf, found] at wrong
            rw [stringsRead_compatible found] at reads
            have ⟨specs, parsed⟩ := exists_mapM_ok_iff.mpr fun str member =>
              reads str (List.mem_append_left _ member)
            cases wrong.symm.trans parsed
      · have still := (List.mem_cons.mp inside).resolve_left fun same => isCompatible same.symm
        cases found : fileIn entries name with
        | none =>
            rw [passed (Or.inl found)]
            exact later still (stringsRead_other (Or.inl found) names ▸ reads) base size spec
        | some content =>
            by_cases isReg : name = text "reg"
            · subst isReg
              rw [openAt.fromReg found]
              rw [stringsRead_reg found] at reads
              cases words : regWords content with
              | none => rfl
              | some read =>
                  rw [words] at reads
                  exact later still reads read.1 read.2 spec
            · rw [passed (Or.inr ⟨isReg, isCompatible⟩)]
              rw [stringsRead_other (Or.inr ⟨isReg, isCompatible⟩)] at reads
              exact later still reads base size spec

/-- A string that is read and is no specification throws. -/
theorem OpenAt.fromDirLoop_throws {pathStack : List Text} {entries : DirEntries}
    (openAt : OpenAt tree pathStack entries) (names : List Text)
    (nonempty : ∀ name ∈ names, name ≠ []) (wrong : ¬ Parses (stringsRead entries names))
    (base size : UInt32) (spec : List HwioCompSpec) :
    ∃ exn, devFromDirLoop tree pathStack names base size spec = .error exn := by
  induction names generalizing base size spec with
  | nil => exact absurd nofun wrong
  | cons name names before =>
      have later := before fun other member => nonempty other (List.mem_cons_of_mem _ member)
      have passed := openAt.fromOther (nonempty name List.mem_cons_self)
      cases found : fileIn entries name with
      | none =>
          rw [passed (Or.inl found)]
          exact later (stringsRead_other (Or.inl found) names ▸ wrong) base size spec
      | some content =>
          by_cases isReg : name = text "reg"
          · subst isReg
            rw [openAt.fromReg found]
            rw [stringsRead_reg found] at wrong
            cases words : regWords content with
            | none =>
                rw [words] at wrong
                exact absurd nofun wrong
            | some read =>
                rw [words] at wrong
                exact later wrong read.1 read.2 spec
          · by_cases isCompatible : name = text "compatible"
            · subst isCompatible
              rw [openAt.fromCompatible found]
              rw [stringsRead_compatible found] at wrong
              cases parsed : (compatibilityStrings content).mapM HwioCompSpec.parse with
              | error exn => exact ⟨exn, rfl⟩
              | ok specs =>
                  apply later
                  intro rest
                  apply wrong
                  intro str member
                  exact (List.mem_append.mp member).elim
                    (exists_mapM_ok_iff.mp ⟨specs, parsed⟩ str) (rest str)
            · rw [passed (Or.inr ⟨isReg, isCompatible⟩)]
              rw [stringsRead_other (Or.inr ⟨isReg, isCompatible⟩)] at wrong
              exact later wrong base size spec

theorem IsDirectory.names_nonempty {entries : DirEntries} (directory : IsDirectory entries) :
    ∀ name ∈ entries.map Prod.fst, name ≠ [] := by
  intro name member
  rw [← names_of_kinds, List.mem_map] at member
  have ⟨kind, inside, same⟩ := member
  exact same ▸ directory.nonempty kind inside

/-- `dev_from_dir` gives the device that the directory describes. -/
theorem OpenAt.fromDir {pathStack : List Text} {entries : DirEntries} {name : Text}
    (openAt : OpenAt tree (name :: pathStack) entries) (inner : pathStack ≠ [])
    (directory : IsDirectory entries) (reads : Parses (compatibleRead entries))
    {content : List Byte} (found : fileIn entries (text "reg") = some content) {dir : Dir}
    (names : dir.names = entries.map Prod.fst) :
    devFromDir tree (name :: pathStack) dir = .ok (deviceOf tree (name, entries), dir.rewind) := by
  have nonempty := directory.names_nonempty
  rw [← names] at nonempty
  obtain ⟨below, path, rfl⟩ := List.exists_cons_of_ne_nil inner
  rw [compatibleRead, found, Option.isSome_some, if_pos rfl, ← names] at reads
  cases parsed : specsOf entries with
  | error exn =>
      have inside : text "compatible" ∈ dir.names := by
        cases file : fileIn entries (text "compatible") with
        | none =>
            rw [specsOf, file] at parsed
            cases parsed
        | some strings => exact names ▸ fileIn_name file
      have loop := openAt.fromDirLoop_stops parsed dir.names nonempty inside reads 0 0 []
      have noDevice : deviceOf tree (name, entries) = none := by
        rw [deviceOf, parsed]
        cases (fileIn entries (text "reg")).bind regWords <;> rfl
      rw [noDevice]
      simp only [devFromDir, Dir.rewind, loop]
  | ok specs =>
      have distinct : dir.names.Nodup := names ▸ directory.named
      have loop := openAt.fromDirLoop parsed dir.names distinct nonempty 0 0 []
      have words : wordsAfter entries dir.names (0, 0) = regWords content := by
        rw [wordsAfter, if_pos (names ▸ fileIn_name found), found]
        rfl
      have more : specsAfter dir.names specs = specs := by
        rw [specsAfter, names]
        split
        · rfl
        next absent =>
          rw [specsOf] at parsed
          split at parsed
          · exact Except.ok.inj parsed
          next file => exact absurd (fileIn_name file) absent
      rw [words, more] at loop
      have device : deviceOf tree (name, entries) = (regWords content).map fun words =>
          { name := name
            spec := specs.map fun spec => spec.nameSet name
            mmap := HwioDeviceMmap.new tree.pageSize words.1 words.2 tree.memPath } := by
        rw [deviceOf, found, parsed, Option.bind_some]
        cases regWords content <;> rfl
      rw [device]
      simp only [devFromDir, Dir.rewind, loop]
      cases regWords content <;> rfl

/-- A string that is read and is no specification leaves `dev_from_dir` by its
exception, and so does the root by an assertion. -/
theorem OpenAt.fromDir_fails {pathStack : List Text} {entries : DirEntries} {name : Text}
    (openAt : OpenAt tree (name :: pathStack) entries) (directory : IsDirectory entries)
    {content : List Byte} (found : fileIn entries (text "reg") = some content)
    (wrong : pathStack = [] ∨ ¬ Parses (compatibleRead entries)) {dir : Dir}
    (names : dir.names = entries.map Prod.fst) :
    ∃ failure, devFromDir tree (name :: pathStack) dir = .error failure := by
  cases pathStack with
  | nil => exact ⟨_, rfl⟩
  | cons below path =>
      have reads := wrong.resolve_left nofun
      have nonempty := directory.names_nonempty
      rw [compatibleRead, found, Option.isSome_some, if_pos rfl] at reads
      rw [← names] at nonempty reads
      have ⟨exn, loop⟩ := openAt.fromDirLoop_throws dir.names nonempty reads 0 0 []
      simp only [devFromDir, Dir.rewind, loop]
      exact ⟨_, rfl⟩

/-! ## The next directory -/

theorem mem_kinds {entries : DirEntries} {name : Text} {node : DirTree Text FileKind}
    (member : (name, node) ∈ entries) : (name, node.leaf?) ∈ kinds entries :=
  List.mem_map_of_mem (f := fun entry => (entry.1, entry.2.leaf?)) member

/-- The entries of an open directory are what `stat` finds under their names. -/
theorem OpenAt.stat_of_mem {pathStack : List Text} {entries : DirEntries}
    (openAt : OpenAt tree pathStack entries) (directory : IsDirectory entries) {name : Text}
    {node : DirTree Text FileKind} (member : (name, node) ∈ entries) :
    pathStat tree pathStack name = some node := by
  have nonempty := directory.nonempty _ (mem_kinds member)
  rw [openAt.stat nonempty]
  exact child_of_mem directory.named member

theorem OpenAt.nextDir_leaf {pathStack : List Text} {entries : DirEntries}
    (openAt : OpenAt tree pathStack entries) (directory : IsDirectory entries) {name : Text}
    {kind : FileKind} (member : (name, .leaf kind) ∈ entries) (unread : List Text) :
    goNextDirLoop tree pathStack (name :: unread) = goNextDirLoop tree pathStack unread := by
  rw [goNextDirLoop]
  by_cases dots : name = text "." ∨ name = text ".."
  · exact if_pos dots
  · have proper : kind ≠ .dots := fun same =>
      dots ((directory.dots _ (mem_kinds member)).mpr (congrArg some same))
    have noDir : pathIsDir tree pathStack name = false := by
      rw [pathIsDir, openAt.stat_of_mem directory member]
      cases kind with
      | regular content => rfl
      | special => rfl
      | dots => exact absurd rfl proper
    rw [if_neg dots, noDir]
    rfl

theorem OpenAt.nextDir_dir {pathStack : List Text} {entries : DirEntries}
    (openAt : OpenAt tree pathStack entries) (directory : IsDirectory entries) {name : Text}
    {sub : DirEntries} (member : (name, .dir sub) ∈ entries) (unread : List Text) :
    goNextDirLoop tree pathStack (name :: unread) = some (name, unread) := by
  have proper : ¬ (name = text "." ∨ name = text "..") := fun dots =>
    nomatch (directory.dots _ (mem_kinds member)).mp dots
  rw [goNextDirLoop, if_neg proper, pathIsDir, openAt.stat_of_mem directory member]
  rfl

/-- The loop passes over entries that are no directories, up to the next one
that is. -/
theorem OpenAt.nextDir {pathStack : List Text} {entries : DirEntries}
    (openAt : OpenAt tree pathStack entries) (directory : IsDirectory entries)
    (rest : DirEntries) (inside : ∀ entry ∈ rest, entry ∈ entries) :
    (goNextDirLoop tree pathStack (rest.map Prod.fst) = none ∧ dirsIn rest = []) ∨
      ∃ name sub behind, goNextDirLoop tree pathStack (rest.map Prod.fst) =
          some (name, behind.map Prod.fst) ∧
        (name, .dir sub) ∈ rest ∧ behind <:+ rest ∧
        dirsIn rest = (name, sub) :: (dirsIn sub ++ dirsIn behind) := by
  induction rest with
  | nil => exact Or.inl ⟨rfl, rfl⟩
  | cons entry behind before =>
      obtain ⟨name, node⟩ := entry
      have member := inside _ List.mem_cons_self
      have later := before fun entry member => inside entry (List.mem_cons_of_mem _ member)
      cases node with
      | leaf kind =>
          rw [List.map_cons, openAt.nextDir_leaf directory member, dirsIn_cons,
            DirTree.dirs_leaf, List.nil_append]
          apply later.imp id
          intro ⟨next, sub, rest, comes, inner, suffix, dirs⟩
          exact ⟨next, sub, rest, comes, List.mem_cons_of_mem _ inner,
            suffix.trans (List.suffix_cons _ _), dirs⟩
      | dir sub =>
          exact Or.inr ⟨name, sub, behind, openAt.nextDir_dir directory member _,
            List.mem_cons_self, List.suffix_cons _ _, rfl⟩

/-! ## The stacks -/

/-- The stacks are in step: each open directory is the one at its path, and
`rests` are its entries that were not read yet. -/
inductive Standing (tree : DeviceTree) : List Text → List Dir → List DirEntries → Prop where
  | nil : Standing tree [] [] []
  | cons {pathStack : List Text} {dirStack : List Dir} {rests : List DirEntries} {name : Text}
      {entries rest : DirEntries} (openAt : OpenAt tree (name :: pathStack) entries)
      (suffix : rest <:+ entries) (below : Standing tree pathStack dirStack rests) :
      Standing tree (name :: pathStack)
        ({ names := entries.map Prod.fst, unread := rest.map Prod.fst } :: dirStack) (rest :: rests)

theorem Standing.length_eq {pathStack : List Text} {dirStack : List Dir}
    {rests : List DirEntries} (standing : Standing tree pathStack dirStack rests) :
    pathStack.length = dirStack.length := by
  induction standing with
  | nil => rfl
  | cons _ _ _ below => exact congrArg Nat.succ below

/-- The entries that a directory has yet to give. -/
def unreadEntries (tree : DeviceTree) (pathStack : List Text) (dir : Dir) : DirEntries :=
  dir.unread.filterMap fun name => (pathStat tree pathStack name).map fun node => (name, node)

/-- The entries that the open directories have yet to give. -/
def unreadStack (tree : DeviceTree) : List Text → List Dir → List DirEntries
  | name :: pathStack, dir :: dirStack =>
      unreadEntries tree (name :: pathStack) dir :: unreadStack tree pathStack dirStack
  | _, _ => []

theorem OpenAt.unread {pathStack : List Text} {entries : DirEntries}
    (openAt : OpenAt tree pathStack entries) (directory : IsDirectory entries)
    {rest : DirEntries} (inside : ∀ entry ∈ rest, entry ∈ entries) (names : List Text) :
    unreadEntries tree pathStack { names := names, unread := rest.map Prod.fst } = rest := by
  induction rest with
  | nil => rfl
  | cons entry rest before =>
      have first := openAt.stat_of_mem directory (inside _ List.mem_cons_self)
      have others := before fun entry member => inside entry (List.mem_cons_of_mem _ member)
      rw [unreadEntries] at others ⊢
      rw [List.map_cons, List.filterMap_cons, first, others]
      rfl

theorem Standing.unread {pathStack : List Text} {dirStack : List Dir} {rests : List DirEntries}
    (directories : Everywhere IsDirectory tree.root)
    (standing : Standing tree pathStack dirStack rests) :
    unreadStack tree pathStack dirStack = rests := by
  induction standing with
  | nil => rfl
  | cons openAt suffix _ before =>
      have directory := openAt.everywhere directories
      rw [unreadStack, before, openAt.unread directory suffix.subset]

/-- The directory on top, under its name. -/
def topDir (tree : DeviceTree) : List Text → List (Text × DirEntries)
  | [] => []
  | name :: pathStack =>
      match pathStat tree (name :: pathStack) [] with
      | some (.dir entries) => [(name, entries)]
      | _ => []

/-- The directories that the search has yet to look at, in its order. -/
def Walk.pendingDirs (tree : DeviceTree) (walk : Walk) : List (Text × DirEntries) :=
  (if walk.topDirCheckedForDev then [] else topDir tree walk.pathStack) ++
    (unreadStack tree walk.pathStack walk.dirStack).flatMap dirsIn

/-- The devices that the search has yet to find. -/
def Walk.pending (tree : DeviceTree) (walk : Walk) : List TreeDevice :=
  (walk.pendingDirs tree).filterMap (deviceOf tree)

/-- Calls of `device_next` that are left: one to open a directory, one to look
at it, one to leave it, and one more for each directory that is open already. -/
def Walk.work (tree : DeviceTree) (walk : Walk) : Nat :=
  3 * ((unreadStack tree walk.pathStack walk.dirStack).flatMap dirsIn).length +
    (unreadStack tree walk.pathStack walk.dirStack).length +
    (if walk.topDirCheckedForDev then 0 else 1)

/-- The stacks are in step, and a directory that was not looked at yet is read
from its start. -/
def InStep (tree : DeviceTree) (walk : Walk) : Prop :=
  (∃ rests, Standing tree walk.pathStack walk.dirStack rests) ∧
    (walk.topDirCheckedForDev = false → ∀ top ∈ walk.dirStack.head?, top.unread = top.names)

/-! ## One call of `device_next` -/

/-- What a call does: it ends, finds a device in the directory on top or passes
it, opens the next directory, or leaves the one on top. -/
inductive NextCall (tree : DeviceTree) (walk : Walk) :
    Round Walk TreeDevice TreeFailure → Prop where
  | ends (path : walk.pathStack = []) (stack : walk.dirStack = []) : NextCall tree walk (.ends walk)
  | finds {name : Text} {pathStack : List Text} {entries : DirEntries} {dev : TreeDevice}
      (unchecked : walk.topDirCheckedForDev = false) (path : walk.pathStack = name :: pathStack)
      (openAt : OpenAt tree walk.pathStack entries)
      (device : deviceOf tree (name, entries) = some dev) :
      NextCall tree walk (.yields dev { walk with topDirCheckedForDev := true })
  | passes {name : Text} {pathStack : List Text} {entries : DirEntries}
      (unchecked : walk.topDirCheckedForDev = false) (path : walk.pathStack = name :: pathStack)
      (openAt : OpenAt tree walk.pathStack entries)
      (device : deviceOf tree (name, entries) = none) :
      NextCall tree walk (.again { walk with topDirCheckedForDev := true })
  | opens {name next : Text} {pathStack : List Text} {dirStack : List Dir}
      {rests : List DirEntries} {entries rest sub behind : DirEntries}
      (checked : walk.topDirCheckedForDev = true) (path : walk.pathStack = name :: pathStack)
      (stack : walk.dirStack =
        { names := entries.map Prod.fst, unread := rest.map Prod.fst } :: dirStack)
      (openAt : OpenAt tree (name :: pathStack) entries) (suffix : rest <:+ entries)
      (below : Standing tree pathStack dirStack rests) (inner : (next, .dir sub) ∈ rest)
      (later : behind <:+ rest) (dirs : dirsIn rest = (next, sub) :: (dirsIn sub ++ dirsIn behind)) :
      NextCall tree walk (.again
        { pathStack := next :: name :: pathStack
          dirStack := Dir.opened sub ::
            { names := entries.map Prod.fst, unread := behind.map Prod.fst } :: dirStack
          topDirCheckedForDev := false })
  | leaves {name : Text} {pathStack : List Text} {dirStack : List Dir} {rests : List DirEntries}
      {entries rest : DirEntries} (checked : walk.topDirCheckedForDev = true)
      (path : walk.pathStack = name :: pathStack)
      (stack : walk.dirStack =
        { names := entries.map Prod.fst, unread := rest.map Prod.fst } :: dirStack)
      (openAt : OpenAt tree (name :: pathStack) entries) (suffix : rest <:+ entries)
      (below : Standing tree pathStack dirStack rests) (nothing : dirsIn rest = []) :
      NextCall tree walk (.again
        { pathStack := pathStack, dirStack := dirStack, topDirCheckedForDev := true })

/-- The directory on top can be looked at. -/
def Looks (tree : DeviceTree) (walk : Walk) : Prop :=
  walk.topDirCheckedForDev = false → ∀ dir ∈ topDir tree walk.pathStack,
    ((fileIn dir.2 (text "reg")).isSome → walk.pathStack.tail ≠ []) ∧
      Parses (compatibleRead dir.2)

theorem OpenAt.top {pathStack : List Text} {name : Text} {entries : DirEntries}
    (openAt : OpenAt tree (name :: pathStack) entries) :
    topDir tree (name :: pathStack) = [(name, entries)] := by
  rw [topDir, openAt.2]

theorem Loadable.looks (loadable : Loadable tree) (walk : Walk) : Looks tree walk := by
  obtain ⟨pathStack, dirStack, checked⟩ := walk
  intro _ dir member
  change dir ∈ topDir tree pathStack at member
  cases pathStack with
  | nil => cases member
  | cons name pathStack =>
      rw [topDir] at member
      split at member
      next entries found =>
        obtain rfl := List.mem_singleton.mp member
        have openAt : OpenAt tree (name :: pathStack) entries := ⟨nofun, found⟩
        refine ⟨fun hasReg root => ?_, openAt.everywhere loadable.parses⟩
        change pathStack = [] at root
        subst root
        have same := (OpenAt.root tree name).2.symm.trans openAt.2
        rw [Option.some.injEq, DirTree.dir.injEq] at same
        rw [← same, loadable.noReg] at hasReg
        cases hasReg
      next => cases member

/-- The look at a directory: only one with a `reg` is taken for a device. -/
theorem look_at_top {name : Text} {pathStack : List Text} {entries : DirEntries} {dir : Dir}
    {below : List Dir} {walk : Walk}
    (unchecked : walk.topDirCheckedForDev = false) (path : walk.pathStack = name :: pathStack)
    (stack : walk.dirStack = dir :: below) (openAt : OpenAt tree (name :: pathStack) entries)
    (names : dir.names = entries.map Prod.fst) (fresh : dir.unread = dir.names) :
    deviceNextBody tree walk =
      if (fileIn entries (text "reg")).isSome then
        match devFromDir tree (name :: pathStack) dir with
        | .error failure => .fails failure
        | .ok (some dev, dir) =>
            .yields dev { walk with topDirCheckedForDev := true, dirStack := dir.rewind :: below }
        | .ok (none, dir) =>
            .again { walk with topDirCheckedForDev := true, dirStack := dir.rewind :: below }
      else .again { walk with topDirCheckedForDev := true } := by
  have rewound : dir.rewind = dir := by
    cases dir
    exact congrArg _ fresh.symm
  have hasReg : dirHasFile tree _ dir (text "reg") = ((fileIn entries (text "reg")).isSome, _) :=
    openAt.hasFile (by decide) names
  rw [rewound] at hasReg
  simp only [deviceNextBody, stack, unchecked, path, hasReg, Bool.not_false, if_true]
  split
  · rcases devFromDir tree (name :: pathStack) dir with _ | ⟨_ | _, _⟩ <;> rfl
  · rfl

theorem look_call (directories : Everywhere IsDirectory tree.root) {name : Text}
    {pathStack : List Text} {entries : DirEntries} {dir : Dir} {below : List Dir} {walk : Walk}
    (unchecked : walk.topDirCheckedForDev = false) (path : walk.pathStack = name :: pathStack)
    (stack : walk.dirStack = dir :: below) (openAt : OpenAt tree (name :: pathStack) entries)
    (names : dir.names = entries.map Prod.fst) (fresh : dir.unread = dir.names)
    (looks : Looks tree walk) :
    deviceNextBody tree walk = match deviceOf tree (name, entries) with
      | some dev => .yields dev { walk with topDirCheckedForDev := true }
      | none => .again { walk with topDirCheckedForDev := true } := by
  have rewound : dir.rewind = dir := by
    cases dir
    exact congrArg _ fresh.symm
  have ⟨inner, reads⟩ := looks unchecked (name, entries) (by
    rw [path, openAt.top]
    exact List.mem_singleton_self _)
  rw [look_at_top unchecked path stack openAt names fresh]
  cases found : fileIn entries (text "reg") with
  | none =>
      have noDevice : deviceOf tree (name, entries) = none := by
        rw [deviceOf, found]
        rfl
      rw [noDevice]
      rfl
  | some content =>
      rw [found, path] at inner
      rw [openAt.fromDir (inner rfl) (openAt.everywhere directories) reads found names, rewound,
        Option.isSome_some, if_pos rfl]
      cases deviceOf tree (name, entries) <;> simp only [rewound, ← stack]

theorem deviceNextBody_call (directories : Everywhere IsDirectory tree.root) {walk : Walk}
    (inStep : InStep tree walk) (looks : Looks tree walk) :
    NextCall tree walk (deviceNextBody tree walk) := by
  obtain ⟨pathStack, dirStack, checked⟩ := walk
  have ⟨⟨rests, standing⟩, fresh⟩ := inStep
  change Standing tree pathStack dirStack rests at standing
  cases standing with
  | nil => exact NextCall.ends rfl rfl
  | @cons pathStack dirStack rests name entries rest openAt suffix below =>
      cases checked with
      | false =>
          have unread := fresh rfl _ rfl
          rw [look_call directories rfl rfl rfl openAt rfl unread looks]
          cases device : deviceOf tree (name, entries) with
          | none => exact NextCall.passes rfl rfl openAt device
          | some dev => exact NextCall.finds rfl rfl openAt device
      | true =>
          have directory := openAt.everywhere directories
          rcases openAt.nextDir directory rest suffix.subset with
            ⟨ended, nothing⟩ | ⟨next, sub, behind, comes, inner, later, dirs⟩
          · have leaves : deviceNextBody tree ⟨name :: pathStack,
                ⟨entries.map Prod.fst, rest.map Prod.fst⟩ :: dirStack, true⟩ =
                .again ⟨pathStack, dirStack, true⟩ := by
              simp only [deviceNextBody, Bool.not_true, Bool.false_eq_true, if_false, goNextDir,
                ended, List.tail_cons]
            rw [leaves]
            exact NextCall.leaves rfl rfl rfl openAt suffix below nothing
          · have member := suffix.subset inner
            have nonempty := directory.nonempty _ (mem_kinds member)
            have opened := openAt.push nonempty (child_of_mem directory.named member)
            have opens : deviceNextBody tree ⟨name :: pathStack,
                ⟨entries.map Prod.fst, rest.map Prod.fst⟩ :: dirStack, true⟩ =
                .again ⟨next :: name :: pathStack, Dir.opened sub ::
                  ⟨entries.map Prod.fst, behind.map Prod.fst⟩ :: dirStack, false⟩ := by
              simp only [deviceNextBody, Bool.not_true, Bool.false_eq_true, if_false, goNextDir,
                comes, opendirOnStack, opened.2]
              rfl
            rw [opens]
            exact NextCall.opens rfl rfl rfl openAt suffix below inner later dirs

/-- A directory that cannot be looked at ends the search. -/
theorem deviceNextBody_fails (directories : Everywhere IsDirectory tree.root) {walk : Walk}
    (inStep : InStep tree walk) (stuck : ¬ Looks tree walk) :
    ∃ failure, deviceNextBody tree walk = .fails failure := by
  obtain ⟨pathStack, dirStack, checked⟩ := walk
  have ⟨⟨rests, standing⟩, fresh⟩ := inStep
  change Standing tree pathStack dirStack rests at standing
  cases checked with
  | true => exact absurd nofun stuck
  | false =>
      cases standing with
      | nil => exact absurd (fun _ => nofun) stuck
      | @cons pathStack dirStack rests name entries rest openAt suffix below =>
          rw [look_at_top rfl rfl rfl openAt rfl (fresh rfl _ rfl)]
          cases found : fileIn entries (text "reg") with
          | none =>
              refine absurd (fun _ dir member => ?_) stuck
              change dir ∈ topDir tree (name :: pathStack) at member
              rw [openAt.top, List.mem_singleton] at member
              subst member
              rw [compatibleRead, found]
              exact ⟨nofun, nofun⟩
          | some content =>
              have wrong : pathStack = [] ∨ ¬ Parses (compatibleRead entries) := by
                by_contra fine
                have ⟨inner, reads⟩ := not_or.mp fine
                refine stuck fun _ dir member => ?_
                change dir ∈ topDir tree (name :: pathStack) at member
                rw [openAt.top, List.mem_singleton] at member
                subst member
                exact ⟨fun _ => inner, not_not.mp reads⟩
              have ⟨failure, failed⟩ :=
                openAt.fromDir_fails (openAt.everywhere directories) found wrong
                  (show (Dir.mk (entries.map Prod.fst) (rest.map Prod.fst)).names = _ from rfl)
              rw [failed]
              exact ⟨failure, rfl⟩

/-- A look at the top directory takes it from the pending ones. -/
theorem pending_look {walk : Walk} {name : Text} {pathStack : List Text} {entries : DirEntries}
    (unchecked : walk.topDirCheckedForDev = false) (path : walk.pathStack = name :: pathStack)
    (openAt : OpenAt tree walk.pathStack entries) :
    walk.pendingDirs tree =
      (name, entries) :: Walk.pendingDirs tree { walk with topDirCheckedForDev := true } := by
  rw [path] at openAt
  have top : topDir tree walk.pathStack = [(name, entries)] := by
    rw [path, topDir, openAt.2]
  rw [Walk.pendingDirs, Walk.pendingDirs, unchecked, top]
  rfl

theorem work_look {walk : Walk} (unchecked : walk.topDirCheckedForDev = false) :
    Walk.work tree { walk with topDirCheckedForDev := true } < walk.work tree := by
  rw [Walk.work, Walk.work, unchecked]
  exact Nat.lt_succ_self _

/-- The next directory is opened with all of its entries unread. -/
theorem Standing.push {pathStack : List Text} {dirStack : List Dir} {rests : List DirEntries}
    {name : Text} {entries behind sub : DirEntries} {next : Text}
    (below : Standing tree pathStack dirStack rests) (openAt : OpenAt tree (name :: pathStack) entries)
    (later : behind <:+ entries) (opened : OpenAt tree (next :: name :: pathStack) sub) :
    Standing tree (next :: name :: pathStack)
      (Dir.opened sub :: { names := entries.map Prod.fst, unread := behind.map Prod.fst } :: dirStack)
      (sub :: behind :: rests) :=
  .cons opened (List.suffix_refl sub) (.cons openAt later below)

theorem InStep.looked {walk : Walk} (inStep : InStep tree walk) :
    InStep tree { walk with topDirCheckedForDev := true } := ⟨inStep.1, nofun⟩

/-- A look that finds nothing and the ways between directories. -/
theorem NextCall.again (directories : Everywhere IsDirectory tree.root) {walk later : Walk}
    (inStep : InStep tree walk) (call : NextCall tree walk (.again later)) :
    InStep tree later ∧ later.work tree < walk.work tree ∧
      (later.pendingDirs tree = walk.pendingDirs tree ∨
        ∃ dir ∈ topDir tree walk.pathStack, walk.topDirCheckedForDev = false ∧
          deviceOf tree dir = none ∧ walk.pendingDirs tree = dir :: later.pendingDirs tree) := by
  cases call with
  | @passes name pathStack entries unchecked path openAt device =>
      refine ⟨inStep.looked, work_look unchecked, Or.inr ⟨(name, entries), ?_, unchecked, device,
        pending_look unchecked path openAt⟩⟩
      rw [path] at openAt ⊢
      rw [openAt.top]
      exact List.mem_singleton_self _
  | opens checked path stack openAt suffix below inner later dirs =>
      have directory := openAt.everywhere directories
      have member := suffix.subset inner
      have opened := openAt.push (directory.nonempty _ (mem_kinds member))
        (child_of_mem directory.named member)
      have before := (Standing.cons openAt suffix below).unread directories
      have standing := below.push openAt (later.trans suffix) opened
      have after := standing.unread directories
      rw [← path, ← stack] at before
      refine ⟨⟨⟨_, standing⟩, fun _ top first => ?_⟩, ?_, Or.inl ?_⟩
      · rw [← Option.some.inj first]
        rfl
      · simp only [Walk.work, checked, before, after, List.flatMap_cons, dirs,
          List.length_append, List.length_cons]
        simp
        omega
      · simp only [Walk.pendingDirs, checked, before, after, opened.top, List.flatMap_cons, dirs]
        simp
  | leaves checked path stack openAt suffix below nothing =>
      have before := (Standing.cons openAt suffix below).unread directories
      have after := below.unread directories
      rw [← path, ← stack] at before
      refine ⟨⟨⟨_, below⟩, nofun⟩, ?_, Or.inl ?_⟩
      · simp only [Walk.work, checked, before, after, List.flatMap_cons, nothing,
          List.length_cons]
        simp
      · simp only [Walk.pendingDirs, checked, before, after, List.flatMap_cons, nothing]
        simp

/-- A look that finds a device. -/
theorem NextCall.yields {walk later : Walk} {dev : TreeDevice} (inStep : InStep tree walk)
    (call : NextCall tree walk (.yields dev later)) :
    InStep tree later ∧ later.work tree < walk.work tree ∧
      ∃ dir ∈ topDir tree walk.pathStack, walk.topDirCheckedForDev = false ∧
        deviceOf tree dir = some dev ∧ walk.pendingDirs tree = dir :: later.pendingDirs tree := by
  cases call with
  | @finds name pathStack entries dev unchecked path openAt device =>
      refine ⟨inStep.looked, work_look unchecked, (name, entries), ?_, unchecked, device,
        pending_look unchecked path openAt⟩
      rw [path] at openAt ⊢
      rw [openAt.top]
      exact List.mem_singleton_self _

/-- The search ends when there is nothing left to look at. -/
theorem NextCall.ended {walk later : Walk} (call : NextCall tree walk (.ends later)) :
    later = walk ∧ walk.pendingDirs tree = [] ∧ walk.pathStack = [] ∧ walk.dirStack = [] := by
  cases call with
  | ends path stack =>
      refine ⟨rfl, ?_, path, stack⟩
      rw [Walk.pendingDirs, path, stack]
      simp [topDir, unreadStack]

/-- The search gives the devices of the pending directories, one after the other. -/
theorem search_enumerates (loadable : Loadable tree) :
    Enumerates (deviceNextBody tree) (InStep tree) (Walk.pending tree) (Walk.work tree)
      fun last => last.pathStack = [] ∧ last.dirStack = [] where
  again {walk later} inStep calls := by
    have call := deviceNextBody_call loadable.directories inStep (loadable.looks walk)
    rw [calls] at call
    have ⟨kept, less, dirs⟩ := call.again loadable.directories inStep
    refine ⟨kept, ?_, less⟩
    rw [Walk.pending, Walk.pending]
    rcases dirs with same | ⟨dir, _, _, noDevice, taken⟩
    · rw [same]
    · rw [taken, List.filterMap_cons_none noDevice]
  yields {walk later dev} inStep returns := by
    have call := deviceNextBody_call loadable.directories inStep (loadable.looks walk)
    rw [returns] at call
    have ⟨kept, less, dir, _, _, device, taken⟩ := call.yields inStep
    refine ⟨kept, ?_, less⟩
    rw [Walk.pending, Walk.pending, taken, List.filterMap_cons_some device]
  ends {walk later} inStep returns := by
    have call := deviceNextBody_call loadable.directories inStep (loadable.looks walk)
    rw [returns] at call
    obtain ⟨rfl, nothing, path, stack⟩ := call.ended
    exact ⟨inStep, by rw [Walk.pending, nothing]; rfl, path, stack⟩
  fails {walk failure} inStep fails := by
    have call := deviceNextBody_call loadable.directories inStep (loadable.looks walk)
    rw [fails] at call
    exact nomatch call

/-! ## The devices of a tree -/

/-- The devices that a tree describes, in the order of the search. -/
def described (tree : DeviceTree) : List TreeDevice :=
  (dirsIn tree.root).filterMap (deviceOf tree)

/-- Each directory at the end of a path describes its device, if any. -/
theorem mem_described_iff (readable : Readable tree) (dev : TreeDevice) :
    dev ∈ described tree ↔ ∃ path name entries,
      (DirTree.dir tree.root).at (path ++ [name]) = some (.dir entries) ∧
        deviceOf tree (name, entries) = some dev := by
  have named : Everywhere Named tree.root :=
    ⟨readable.directories.1.named, fun dir member => (readable.directories.below member).named⟩
  rw [described, List.mem_filterMap]
  constructor
  · intro ⟨dir, member, device⟩
    have ⟨path, found⟩ := at_of_mem_dirsIn named member
    exact ⟨path, dir.1, dir.2, found, device⟩
  · intro ⟨path, name, entries, found, device⟩
    exact ⟨(name, entries), mem_dirsIn_of_at found, device⟩

theorem start_inStep (tree : DeviceTree) : InStep tree (HwioBusDevicetree.start tree) :=
  ⟨⟨[tree.root], .cons (OpenAt.root tree _) (List.suffix_refl _) .nil⟩,
    fun _ top first => by rw [← Option.some.inj first]; rfl⟩

theorem start_unread (directories : Everywhere IsDirectory tree.root) :
    unreadStack tree [tree.deviceTreePath] [Dir.opened tree.root] = [tree.root] :=
  (Standing.cons (OpenAt.root tree _) (List.suffix_refl _) .nil).unread directories

theorem start_pendingDirs (directories : Everywhere IsDirectory tree.root) :
    Walk.pendingDirs tree (HwioBusDevicetree.start tree) =
      (tree.deviceTreePath, tree.root) :: dirsIn tree.root := by
  show topDir tree [tree.deviceTreePath] ++
    (unreadStack tree [tree.deviceTreePath] [Dir.opened tree.root]).flatMap dirsIn = _
  rw [(OpenAt.root tree _).top, start_unread directories, List.flatMap_singleton]
  rfl

/-- The root is looked at like any directory, but describes no device. -/
theorem start_pending (loadable : Loadable tree) :
    Walk.pending tree (HwioBusDevicetree.start tree) = described tree := by
  have noDevice : deviceOf tree (tree.deviceTreePath, tree.root) = none := by
    rw [deviceOf, loadable.noReg]
    rfl
  rw [Walk.pending, start_pendingDirs loadable.directories, List.filterMap_cons_none noDevice,
    described]

/-- Calls of `device_next` that are enough for a tree. -/
def enoughCalls (root : DirEntries) : Nat := 3 * (dirsIn root).length + 3

theorem start_work (directories : Everywhere IsDirectory tree.root) :
    Walk.work tree (HwioBusDevicetree.start tree) < enoughCalls tree.root := by
  rw [Walk.work]
  show 3 * ((unreadStack tree [tree.deviceTreePath] [Dir.opened tree.root]).flatMap dirsIn).length +
    (unreadStack tree [tree.deviceTreePath] [Dir.opened tree.root]).length + 1 < _
  rw [start_unread directories, List.flatMap_singleton, enoughCalls]
  exact Nat.lt_succ_self _

theorem devices_eq (loadable : Loadable tree) {fuel : Nat} (enough : enoughCalls tree.root ≤ fuel) :
    ∃ last, HwioBusDevicetree.devices tree fuel = some (.ok (described tree, last)) ∧
      last.pathStack = [] ∧ last.dirStack = [] := by
  have result := (search_enumerates loadable).drain_eq (start_inStep tree)
    (Nat.lt_of_lt_of_le (start_work loadable.directories) enough)
  rw [start_pending loadable] at result
  exact result

/-- A search that comes to its end has looked into every directory. -/
theorem loadable_of_devices (directories : Everywhere IsDirectory tree.root) {fuel : Nat}
    {devices : List TreeDevice} {last : Walk}
    (found : HwioBusDevicetree.devices tree fuel = some (.ok (devices, last))) : Loadable tree := by
  have looks : ∀ {walk : Walk} {result : Round Walk TreeDevice TreeFailure}, InStep tree walk →
      deviceNextBody tree walk = result → (∀ failure, result ≠ .fails failure) →
        Looks tree walk ∧ NextCall tree walk result := by
    rintro walk result inStep rfl goesOn
    have looks : Looks tree walk := by
      by_contra stuck
      have ⟨failure, fails⟩ := deviceNextBody_fails directories inStep stuck
      exact goesOn failure fails
    exact ⟨looks, deviceNextBody_call directories inStep looks⟩
  have parses : ∀ dir ∈ Walk.pendingDirs tree (HwioBusDevicetree.start tree),
      Parses (compatibleRead dir.2) := by
    refine @drain_passes _ _ _ (deviceNextBody tree) (InStep tree) _ _ _ ?_ ?_ ?_ _ _ _ _
      (start_inStep tree) found
    · intro walk later inStep calls
      have ⟨looks, call⟩ := looks inStep calls nofun
      have ⟨kept, _, dirs⟩ := call.again directories inStep
      refine ⟨kept, ?_⟩
      rcases dirs with same | ⟨dir, top, unchecked, _, taken⟩
      · rw [same]
        exact fun dir member => Or.inr member
      · rw [taken]
        exact List.forall_mem_cons.mpr
          ⟨Or.inl (looks unchecked dir top).2, fun _ member => Or.inr member⟩
    · intro walk later dev inStep calls
      have ⟨looks, call⟩ := looks inStep calls nofun
      have ⟨kept, _, dir, top, unchecked, _, taken⟩ := call.yields inStep
      rw [taken]
      exact ⟨kept, List.forall_mem_cons.mpr
        ⟨Or.inl (looks unchecked dir top).2, fun _ member => Or.inr member⟩⟩
    · intro walk later inStep calls
      exact (looks inStep calls nofun).2.ended.2.1
  rw [start_pendingDirs directories] at parses
  have ⟨root, below⟩ := List.forall_mem_cons.mp parses
  refine { directories := directories, noReg := ?_, parses := ⟨root, below⟩ }
  cases hasReg : fileIn tree.root (text "reg") with
  | none => rfl
  | some content =>
      have ⟨failure, fails⟩ := deviceNextBody_fails directories (start_inStep tree) fun looks => by
        have ⟨inner, _⟩ := looks rfl (tree.deviceTreePath, tree.root) (by
          show _ ∈ topDir tree [tree.deviceTreePath]
          rw [(OpenAt.root tree _).top]
          exact List.mem_singleton_self _)
        exact inner (by rw [hasReg]; rfl) rfl
      cases fuel with
      | zero => cases found
      | succ fuel =>
          rw [HwioBusDevicetree.devices, drain, next, fails] at found
          cases found

/-! ## The order of the devices -/

theorem devAddrCmp_strictWeak : StrictWeak devAddrCmp where
  asymmetric {first second} less := by
    simp only [devAddrCmp, decide_eq_true_eq, decide_eq_false_iff_not] at less ⊢
    exact (UInt32.lt_asymm less)
  transitive {first second third} low high := by
    simp only [devAddrCmp, decide_eq_false_iff_not, UInt32.not_lt] at low high ⊢
    exact UInt32.le_trans low high

theorem sort_ordered (sort : StdSort TreeDevice) (devices : List TreeDevice) :
    (sort.sort devAddrCmp devices).Pairwise fun earlier later =>
      earlier.mmap.onBusBaseAddr ≤ later.mmap.onBusBaseAddr := by
  apply (sort.sorted devAddrCmp_strictWeak devices).imp
  intro earlier later notLess
  simpa only [devAddrCmp, decide_eq_false_iff_not, UInt32.not_lt] using notLess

/-- Lists of devices that differ in the order of equal base addresses only. -/
def SameUpToTies (left right : List TreeDevice) : Prop :=
  left.Perm right ∧
    left.map (fun dev => dev.mmap.onBusBaseAddr) = right.map fun dev => dev.mmap.onBusBaseAddr

theorem sort_sameUpToTies (sort : StdSort TreeDevice) {left right : List TreeDevice}
    (perm : left.Perm right) :
    SameUpToTies (sort.sort devAddrCmp left) (sort.sort devAddrCmp right) := by
  have same := ((sort.perm devAddrCmp_strictWeak left).trans perm).trans
    (sort.perm devAddrCmp_strictWeak right).symm
  refine ⟨same, ?_⟩
  apply List.Perm.eq_of_pairwise (fun _ _ _ _ => UInt32.le_antisymm)
  · exact List.pairwise_map.mpr (sort_ordered sort left)
  · exact List.pairwise_map.mpr (sort_ordered sort right)
  · exact same.map _

/-! ## The order of entries -/

theorem mem_file_iff {entries : DirEntries} (named : Named entries) {name : Text}
    {content : List Byte} :
    fileIn entries name = some content ↔ (name, .leaf (.regular content)) ∈ entries := by
  constructor
  · intro found
    rw [fileIn] at found
    split at found
    next regular =>
      rw [← Option.some.inj found]
      exact mem_of_child regular
    · exact nomatch found
  · intro member
    rw [fileIn, child_of_mem named member]

theorem fileIn_rearranged {left right : DirEntries} (rearranged : Rearranged left right)
    (named : Named left) (name : Text) : fileIn left name = fileIn right name := by
  apply Option.ext
  intro content
  rw [mem_file_iff named, mem_file_iff (rearranged.named named)]
  exact rearranged.mem_leaf

theorem specsOf_rearranged {left right : DirEntries} (rearranged : Rearranged left right)
    (named : Named left) : specsOf left = specsOf right := by
  rw [specsOf, specsOf, fileIn_rearranged rearranged named]

theorem deviceOf_rearranged {left right : DirEntries} (rearranged : Rearranged left right)
    (named : Named left) (name : Text) : deviceOf tree (name, left) = deviceOf tree (name, right) := by
  rw [deviceOf, deviceOf, fileIn_rearranged rearranged named,
    specsOf_rearranged rearranged named]

theorem IsDirectory.rearranged {left right : DirEntries} (directory : IsDirectory left)
    (rearranged : Rearranged left right) : IsDirectory right where
  named := rearranged.named directory.named
  nonempty kind member := directory.nonempty kind (rearranged.kinds.mem_iff.mpr member)
  dots kind member := directory.dots kind (rearranged.kinds.mem_iff.mpr member)

/-- A tree stays readable when the system gives its entries in another order. -/
theorem Readable.rearranged (readable : Readable tree) {root : DirEntries}
    (rearranged : Rearranged tree.root root) : Readable { tree with root := root } := by
  have kept : Everywhere
      (fun entries => IsDirectory entries ∧ ∃ specs, specsOf entries = .ok specs) root := by
    apply rearranged.everywhere
    · intro left right other ⟨directory, specs, parsed⟩
      exact ⟨directory.rearranged other, specs,
        (specsOf_rearranged other directory.named) ▸ parsed⟩
    · exact ⟨⟨readable.directories.1, readable.parses.1⟩, fun dir member =>
        ⟨readable.directories.below member, readable.parses.below member⟩⟩
  exact
    { directories := ⟨kept.1.1, fun dir member => (kept.below member).1⟩
      noReg := (fileIn_rearranged rearranged readable.directories.1.named _).symm.trans
        readable.noReg
      parses := ⟨kept.1.2, fun dir member => (kept.below member).2⟩ }

theorem described_rearranged (readable : Readable tree) {root : DirEntries}
    (rearranged : Rearranged tree.root root) :
    (described tree).Perm (described { tree with root := root }) :=
  rearranged.filterMap_dirsIn
    (fun {name} _ _ other named => deviceOf_rearranged other named name)
    fun _ member => (readable.directories.below member).named

/-! ## The constructor -/

theorem new_eq (sort : StdSort TreeDevice) (loadable : Loadable tree) {fuel : Nat}
    (enough : enoughCalls tree.root ≤ fuel) :
    ∃ walk, HwioBusDevicetree.new tree sort fuel =
      some (.ok { walk := walk, allDevices := sort.sort devAddrCmp (described tree) }) := by
  have ⟨last, found, _, closed⟩ := devices_eq loadable enough
  refine ⟨{ last with pathStack := [] }, ?_⟩
  rw [HwioBusDevicetree.new, found]
  show (if last.dirStack.length = 0 then _ else _) = _
  rw [closed]
  rfl

/-- The constructor returns just when the tree can be gone through. -/
theorem new_ok_iff (sort : StdSort TreeDevice) (directories : Everywhere IsDirectory tree.root) :
    (∃ fuel bus, HwioBusDevicetree.new tree sort fuel = some (.ok bus)) ↔ Loadable tree := by
  constructor
  · intro ⟨fuel, bus, returned⟩
    rw [HwioBusDevicetree.new] at returned
    rcases found : HwioBusDevicetree.devices tree fuel with _ | failure | ⟨devices, last⟩
    · rw [found] at returned
      cases returned
    · rw [found] at returned
      cases returned
    · exact loadable_of_devices directories found
  · intro loadable
    have ⟨walk, returned⟩ := new_eq sort loadable (Nat.le_refl _)
    exact ⟨_, _, returned⟩

/-- The devices of a tree that was loaded. -/
theorem allDevices_of_new {sort : StdSort TreeDevice}
    (directories : Everywhere IsDirectory tree.root) {fuel : Nat} {bus : HwioBusDevicetree}
    (returned : HwioBusDevicetree.new tree sort fuel = some (.ok bus)) :
    bus.allDevices = sort.sort devAddrCmp (described tree) := by
  have loadable := (new_ok_iff sort directories).mp ⟨fuel, bus, returned⟩
  rw [HwioBusDevicetree.new] at returned
  rcases found : HwioBusDevicetree.devices tree fuel with _ | failure | ⟨devices, last⟩
  · rw [found] at returned
    cases returned
  · rw [found] at returned
    cases returned
  · have ⟨final, enough, _, _⟩ := devices_eq loadable (Nat.le_max_right fuel (enoughCalls tree.root))
    have same := (drain_le (Nat.le_max_left fuel (enoughCalls tree.root)) found).symm.trans enough
    cases same
    rw [found] at returned
    simp only at returned
    split at returned
    · cases returned
      rfl
    · cases returned

/-- Discovery is complete and exact, whatever the order of the entries. -/
theorem devicetree_discovered (sort : StdSort TreeDevice) (tree : DeviceTree)
    (readable : Readable tree) :
    (∀ walk, Visited (deviceNextBody tree) (HwioBusDevicetree.start tree) walk →
        walk.pathStack.length = walk.dirStack.length) ∧
      (∀ fuel, enoughCalls tree.root ≤ fuel → ∃ last,
        HwioBusDevicetree.devices tree fuel = some (.ok (described tree, last)) ∧
          last.pathStack = [] ∧ last.dirStack = []) ∧
      ∃ devices,
        (∀ fuel, enoughCalls tree.root ≤ fuel → ∃ walk, HwioBusDevicetree.new tree sort fuel =
          some (.ok { walk := walk, allDevices := devices })) ∧
        devices.Perm (described tree) ∧
        (∀ dev, dev ∈ devices ↔ ∃ path name entries,
          (DirTree.dir tree.root).at (path ++ [name]) = some (.dir entries) ∧
            deviceOf tree (name, entries) = some dev) ∧
        devices.Pairwise (fun earlier later =>
          earlier.mmap.onBusBaseAddr ≤ later.mmap.onBusBaseAddr) ∧
        ∀ root, Rearranged tree.root root → ∃ others,
          (∀ fuel, enoughCalls root ≤ fuel → ∃ walk,
            HwioBusDevicetree.new { tree with root := root } sort fuel =
              some (.ok { walk := walk, allDevices := others })) ∧
          SameUpToTies devices others := by
  have perm := sort.perm devAddrCmp_strictWeak (described tree)
  refine ⟨?_, fun fuel enough => devices_eq readable.loadable enough,
    sort.sort devAddrCmp (described tree),
    fun fuel enough => new_eq sort readable.loadable enough, perm,
    ?_, sort_ordered sort _, ?_⟩
  · intro walk visited
    have ⟨⟨_, standing⟩, _⟩ := (search_enumerates readable.loadable).visited (start_inStep tree)
      visited
    exact standing.length_eq
  · intro dev
    rw [perm.mem_iff]
    exact mem_described_iff readable dev
  · intro root rearranged
    exact ⟨_, fun fuel enough => new_eq sort (readable.rearranged rearranged).loadable enough,
      sort_sameUpToTies sort (described_rearranged readable rearranged)⟩

/-- Merging sorts as `std::sort` has to. -/
def mergeSorted (Item : Type) : StdSort Item where
  sort less items := items.mergeSort fun first second => !less second first
  perm _ items := List.mergeSort_perm items _
  sorted {less} strictWeak items := by
    have sorted := @List.pairwise_mergeSort _ (fun first second => !less second first)
      (fun first second third low high => by
        simp only [Bool.not_eq_true'] at low high ⊢
        exact strictWeak.transitive low high)
      (fun first second => by
        cases less : less second first with
        | false => rfl
        | true => rw [strictWeak.asymmetric less]; rfl)
      items
    exact sorted.imp fun notLess => by simpa only [Bool.not_eq_true'] using notLess

/-- A board with a bridge, whose `reg` is too short, and a serial port below it. -/
def board : DeviceTree where
  deviceTreePath := text "/proc/device-tree"
  memPath := text "/dev/mem"
  pageSize := 4096
  root :=
    [ (text ".", .leaf .dots),
      (text "..", .leaf .dots),
      (text "amba", .dir
        [ (text "reg", .leaf (.regular [0, 0, 0, 1])),
          (text "serial", .dir
            [ (text "..", .leaf .dots),
              (text "reg", .leaf (.regular [0x40, 0, 0, 0x10, 0, 0, 0x10, 0])),
              (text "compatible", .leaf (.regular (text "xlnx,uart-1.2" ++ [0]))) ]),
          (text ".", .leaf .dots) ]) ]

/-- The serial port of the board. -/
def serial : TreeDevice where
  name := text "serial"
  spec := [⟨text "serial", text "xlnx", text "uart", ⟨1, 2, -1⟩⟩]
  mmap := HwioDeviceMmap.new 4096 0x40000010 0x1000 (text "/dev/mem")

instance (entries : DirEntries) : Decidable (IsDirectory entries) :=
  decidable_of_iff
    ((entries.map Prod.fst).Nodup ∧ (∀ kind ∈ kinds entries, kind.1 ≠ []) ∧
      ∀ kind ∈ kinds entries, (kind.1 = text "." ∨ kind.1 = text "..") ↔ kind.2 = some .dots)
    ⟨fun ⟨named, nonempty, dots⟩ => ⟨named, nonempty, dots⟩,
      fun ⟨named, nonempty, dots⟩ => ⟨named, nonempty, dots⟩⟩

theorem parses_of_toOption {entries : DirEntries} (some : (specsOf entries).toOption.isSome) :
    ∃ specs, specsOf entries = .ok specs := by
  cases parsed : specsOf entries with
  | ok specs => exact ⟨specs, rfl⟩
  | error exn =>
      rw [parsed] at some
      exact nomatch some

theorem board_readable : Readable board where
  directories := ⟨by decide +kernel, by decide +kernel⟩
  noReg := by decide +kernel
  parses :=
    have every : ∀ dir ∈ dirsIn board.root, (specsOf dir.2).toOption.isSome := by decide +kernel
    ⟨parses_of_toOption (by decide +kernel), fun dir member =>
      parses_of_toOption (every dir member)⟩

theorem board_discovered : Readable board ∧ ∃ devices walk,
    HwioBusDevicetree.new board (mergeSorted TreeDevice) 9 =
      some (.ok { walk := walk, allDevices := devices }) ∧ devices.Perm [serial] := by
  have ⟨_, _, devices, found, perm, _⟩ :=
    devicetree_discovered (mergeSorted TreeDevice) board board_readable
  have only : described board = [serial] := by decide +kernel
  have ⟨walk, result⟩ := found 9 (by decide +kernel)
  exact ⟨board_readable, devices, walk, result, only ▸ perm⟩

end Hwio
