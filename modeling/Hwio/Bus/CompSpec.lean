import Hwio.Server.State

/-!
Contract: `hwio_version.cpp` and the compatibility strings of
`hwio_comp_spec.cpp`.

Owns the version pattern and its groups, the numbers of a version, and how a
compatibility string becomes a specification.

Does not own matching of specifications.
-/

namespace Hwio

open Library

/-! ## Characters -/

/-- `\d` -/
def isDigit (byte : Byte) : Bool := 48 ≤ byte && byte ≤ 57

/-- `std::isalpha` in the "C" locale -/
def isAlpha (byte : Byte) : Bool := (65 ≤ byte && byte ≤ 90) || (97 ≤ byte && byte ≤ 122)

/-- `\w` -/
def isWord (byte : Byte) : Bool := isAlpha byte || isDigit byte || byte == 95

def dot : Byte := 46
def comma : Byte := 44
def hyphen : Byte := 45

/-! ## Versions -/

/-- `std::stoi` of a text without a blank or a sign in front. -/
def stoi (str : Text) : Except Exn Int32 :=
  let digits := str.takeWhile isDigit
  let value := digits.foldl (fun value digit => 10 * value + (digit.toNat - 48)) 0
  if digits = [] then .error ⟨false, text "stoi"⟩
  else if value ≤ 2 ^ 31 - 1 then .ok (Int32.ofNat value)
  else .error ⟨false, text "stoi"⟩

/-- Groups 1, 2 and 4 of a `regex_match` with `hwio_version_regex`; group 4 is
empty where the optional group 3 is. -/
def versionGroups (str : Text) : Option (Text × Text × Text) :=
  let major := str.takeWhile isDigit
  if major = [] then none
  else match str.dropWhile isDigit with
  | [] => none
  | byte :: rest =>
      let minor := rest.takeWhile isDigit
      if byte ≠ dot ∨ minor = [] then none
      else match rest.dropWhile isDigit with
      | [] => some (major, minor, [])
      | byte :: third =>
          if byte = dot ∧ third ≠ [] ∧
              (third.all isDigit ∨ third.length = 1 ∧ third.all isWord) then
            some (major, minor, third)
          else none

/-- `hwio_version()` -/
def HwioVersion.na : HwioVersion := ⟨-1, -1, -1⟩

/-- `hwio_version(version_str)` -/
def HwioVersion.parse (versionStr : Text) : Except Exn HwioVersion :=
  match versionGroups versionStr with
  | none => .error ⟨true, text "[HWIO] Wrong hwio_version format"⟩
  | some (first, second, fourth) => do
      let major ← stoi first
      let minor ← stoi second
      match fourth with
      | [] => return { major := major, minor := minor, subminor := -1 }
      | byte :: _ =>
          if isAlpha byte then
            return { major := major, minor := minor, subminor := Int32.ofNat byte.toNat }
          else
            return { major := major, minor := minor, subminor := ← stoi fourth }

/-! ## Compatibility strings -/

/-- `str.find_last_of(char)`; `none` is `npos`. -/
def findLastOf (char : Byte) : Text → Option Nat
  | [] => none
  | byte :: rest =>
      match findLastOf char rest with
      | some position => some (position + 1)
      | none => if byte = char then some 0 else none

/-- `str.substr(pos, n)` -/
def substr (str : Text) (pos n : Nat) : Text := (str.drop pos).take n

/-- The version of a compatibility string and `type_end` after it: a format
that is wrong belongs to the type, other exceptions are not caught. -/
def versionOrType (str : Text) (versionBegin typeEnd : Nat) : Except Exn (HwioVersion × Nat) :=
  match HwioVersion.parse (substr str versionBegin str.length) with
  | .ok version => .ok (version, typeEnd)
  | .error exn => if exn.isRuntimeError then .ok (.na, str.length) else .error exn

/-- `hwio_comp_spec(compatibility_str)` -/
def HwioCompSpec.parse (str : Text) : Except Exn HwioCompSpec :=
  match findLastOf comma str, findLastOf hyphen str with
  | none, none => .ok { name := [], vendor := [], type := str, version := .na }
  | some comma, none =>
      -- `type = type_begin` assigns a number to a string, which makes it one character
      .ok { name := [], vendor := substr str 0 comma, type := [UInt8.ofNat (comma + 1)],
            version := .na }
  | none, some hyphen => do
      let (version, typeEnd) ← versionOrType str (hyphen + 1) hyphen
      return { name := [], vendor := [], type := substr str 0 typeEnd, version := version }
  | some comma, some hyphen => do
      let typeBegin := comma + 1
      let (version, typeEnd) ←
        versionOrType str (hyphen + 1) ((hyphen + 2 ^ 64 - typeBegin) % 2 ^ 64)
      return { name := [], vendor := substr str 0 comma, type := substr str typeBegin typeEnd,
               version := version }

/-- `name_set` -/
def HwioCompSpec.nameSet (spec : HwioCompSpec) (name : Text) : HwioCompSpec :=
  { spec with name := name }

end Hwio
