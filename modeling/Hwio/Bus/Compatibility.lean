import Hwio.Bus.CompSpec

/-!
Contract: what the constructors of `hwio_version` and `hwio_comp_spec` make of a
text.

Owns the texts that are versions, the exceptions that a version may end with,
and the parts of a compatibility string, with and without a version.

Does not own the files that the strings come from.
-/

namespace Hwio

open Library

/-! ## The version pattern -/

/-- `\d+` -/
def Digits (str : Text) : Prop := str ≠ [] ∧ ∀ byte ∈ str, isDigit byte = true

instance (str : Text) : Decidable (Digits str) :=
  decidable_of_iff (str ≠ [] ∧ str.all isDigit = true)
    (and_congr Iff.rfl List.all_eq_true)

/-- `\w|\d+`, the fourth group where it is not empty. -/
def FourthGroup (str : Text) : Prop := Digits str ∨ ∃ byte, isWord byte = true ∧ str = [byte]

/-- The decimal value of some digits. -/
def number (digits : Text) : Nat :=
  digits.foldl (fun value digit => 10 * value + (digit.toNat - 48)) 0

theorem takeWhile_digits {digits rest : Text} (all : Digits digits)
    (ends : ∀ byte ∈ rest.head?, isDigit byte = false) :
    (digits ++ rest).takeWhile isDigit = digits ∧ (digits ++ rest).dropWhile isDigit = rest := by
  rw [List.takeWhile_append_of_pos all.2, List.dropWhile_append_of_pos all.2]
  cases rest with
  | nil => simp
  | cons byte rest =>
      have last := ends byte rfl
      simp [last]

theorem digits_dot {digits rest : Text} (all : Digits digits) :
    (digits ++ dot :: rest).takeWhile isDigit = digits ∧
      (digits ++ dot :: rest).dropWhile isDigit = dot :: rest := by
  apply takeWhile_digits all
  intro byte head
  obtain rfl := Option.some.inj head
  decide

theorem digits_all {digits : Text} (all : Digits digits) :
    digits.takeWhile isDigit = digits ∧ digits.dropWhile isDigit = [] := by
  have ended := @takeWhile_digits digits [] all (by simp)
  rw [List.append_nil] at ended
  exact ended

/-- The digits at the front of a text that has some. -/
theorem digits_takeWhile {str : Text} (some : str.takeWhile isDigit ≠ []) :
    Digits (str.takeWhile isDigit) := by
  exact ⟨some, List.all_eq_true.mp List.all_takeWhile⟩

theorem versionGroups_pair {first second : Text} (major : Digits first) (minor : Digits second) :
    versionGroups (first ++ dot :: second) = some (first, second, []) := by
  have ⟨front, rest⟩ := @digits_dot first second major
  have ⟨middle, last⟩ := digits_all minor
  rw [versionGroups, front, rest]
  simp [middle, last, major.1, minor.1]

theorem fourthGroup_iff (str : Text) :
    FourthGroup str ↔
      str ≠ [] ∧ (str.all isDigit = true ∨ str.length = 1 ∧ str.all isWord = true) := by
  constructor
  · rintro (digits | ⟨byte, word, rfl⟩)
    · exact ⟨digits.1, Or.inl (List.all_eq_true.mpr digits.2)⟩
    · exact ⟨List.cons_ne_nil _ _, Or.inr ⟨rfl, by simp [word]⟩⟩
  · rintro ⟨some, digits | ⟨one, word⟩⟩
    · exact Or.inl ⟨some, List.all_eq_true.mp digits⟩
    · obtain ⟨byte, rfl⟩ := List.length_eq_one_iff.mp one
      exact Or.inr ⟨byte, by simpa using word, rfl⟩

theorem versionGroups_triple {first second third : Text} (major : Digits first)
    (minor : Digits second) (subminor : FourthGroup third) :
    versionGroups (first ++ dot :: (second ++ dot :: third)) = some (first, second, third) := by
  have ⟨front, rest⟩ := @digits_dot first (second ++ dot :: third) major
  have ⟨middle, last⟩ := @digits_dot second third minor
  have fourth := (fourthGroup_iff third).mp subminor
  rw [versionGroups, front, rest]
  simp only [middle, last, major.1, minor.1, if_false, ne_eq, not_true_eq_false, or_self]
  rw [if_pos ⟨trivial, fourth⟩]

/-- The texts that match `hwio_version_regex`, and their groups. -/
theorem versionGroups_eq_some_iff {str first second fourth : Text} :
    versionGroups str = some (first, second, fourth) ↔
      Digits first ∧ Digits second ∧
        (fourth = [] ∧ str = first ++ dot :: second ∨
          FourthGroup fourth ∧ str = first ++ dot :: (second ++ dot :: fourth)) := by
  constructor
  · intro groups
    have whole := @List.takeWhile_append_dropWhile _ isDigit str
    unfold versionGroups at groups
    simp only at groups
    by_cases none : str.takeWhile isDigit = []
    · rw [if_pos none] at groups
      cases groups
    rw [if_neg none] at groups
    cases after : str.dropWhile isDigit with
    | nil =>
        rw [after] at groups
        cases groups
    | cons byte rest =>
    rw [after] at groups whole
    simp only at groups
    have inner := @List.takeWhile_append_dropWhile _ isDigit rest
    by_cases wrong : byte ≠ dot ∨ rest.takeWhile isDigit = []
    · rw [if_pos wrong] at groups
      cases groups
    rw [if_neg wrong] at groups
    rw [not_or, not_ne_iff] at wrong
    obtain ⟨rfl, some⟩ := wrong
    cases ending : rest.dropWhile isDigit with
    | nil =>
        rw [ending] at groups inner
        cases groups
        rw [List.append_nil] at inner
        refine ⟨digits_takeWhile none, digits_takeWhile some, Or.inl ⟨rfl, ?_⟩⟩
        rw [inner, whole]
    | cons byte third =>
    rw [ending] at groups inner
    simp only at groups
    by_cases last : byte = dot ∧ third ≠ [] ∧
        (third.all isDigit = true ∨ third.length = 1 ∧ third.all isWord = true)
    · rw [if_pos last] at groups
      obtain ⟨rfl, fourth⟩ := last
      cases groups
      refine ⟨digits_takeWhile none, digits_takeWhile some,
        Or.inr ⟨(fourthGroup_iff _).mpr fourth, ?_⟩⟩
      rw [inner, whole]
    · rw [if_neg last] at groups
      cases groups
  · rintro ⟨major, minor, ⟨rfl, rfl⟩ | ⟨subminor, rfl⟩⟩
    · exact versionGroups_pair major minor
    · exact versionGroups_triple major minor subminor

/-! ## Versions -/

/-- The greatest number that fits an `int`. -/
def intMax : Nat := 2 ^ 31 - 1

/-- What a version text writes: two numbers, and then nothing, a number or a
letter. -/
inductive WritesVersion : Text → HwioVersion → Prop
  | pair {first second : Text} (major : Digits first) (minor : Digits second)
      (majorFits : number first ≤ intMax) (minorFits : number second ≤ intMax) :
      WritesVersion (first ++ dot :: second)
        ⟨Int32.ofNat (number first), Int32.ofNat (number second), -1⟩
  | triple {first second third : Text} (major : Digits first) (minor : Digits second)
      (subminor : Digits third) (majorFits : number first ≤ intMax)
      (minorFits : number second ≤ intMax) (subminorFits : number third ≤ intMax) :
      WritesVersion (first ++ dot :: (second ++ dot :: third))
        ⟨Int32.ofNat (number first), Int32.ofNat (number second), Int32.ofNat (number third)⟩
  | letter {first second : Text} {letter : Byte} (major : Digits first) (minor : Digits second)
      (alpha : isAlpha letter = true) (majorFits : number first ≤ intMax)
      (minorFits : number second ≤ intMax) :
      WritesVersion (first ++ dot :: (second ++ dot :: [letter]))
        ⟨Int32.ofNat (number first), Int32.ofNat (number second), Int32.ofNat letter.toNat⟩

/-- A text that matches the pattern of a version without writing one: it has a
number that no `int` holds, or `_` for its last component. -/
def Slips (str : Text) : Prop :=
  ∃ first second fourth, versionGroups str = some (first, second, fourth) ∧
    (intMax < number first ∨ intMax < number second ∨
      (Digits fourth ∧ intMax < number fourth) ∨ fourth = text "_")

theorem stoi_digits {digits : Text} (all : Digits digits) :
    stoi digits = if number digits ≤ intMax then .ok (Int32.ofNat (number digits))
      else .error ⟨false, text "stoi"⟩ := by
  unfold stoi
  simp only [(digits_all all).1, if_neg all.1]
  rfl

theorem digit_not_alpha {byte : Byte} (digit : isDigit byte = true) : isAlpha byte = false := by
  simp only [isDigit, isAlpha, Bool.and_eq_true, decide_eq_true_eq, Bool.or_eq_false_iff,
    Bool.and_eq_false_iff, decide_eq_false_iff_not, UInt8.le_iff_toNat_le, UInt8.reduceToNat]
    at digit ⊢
  omega

/-- The last component is a number, a letter or the underscore. -/
theorem FourthGroup.cases {str : Text} (group : FourthGroup str) :
    Digits str ∨ (∃ letter, isAlpha letter = true ∧ str = [letter]) ∨ str = text "_" := by
  rcases group with digits | ⟨byte, word, rfl⟩
  · exact Or.inl digits
  simp only [isWord, Bool.or_eq_true, beq_iff_eq] at word
  rcases word with (alpha | digit) | rfl
  · exact Or.inr (Or.inl ⟨byte, alpha, rfl⟩)
  · exact Or.inl ⟨List.cons_ne_nil _ _, by simp [digit]⟩
  · exact Or.inr (Or.inr rfl)

/-- `hwio_version` of a text in the format. -/
theorem HwioVersion.parse_of_groups {str first second fourth : Text}
    (groups : versionGroups str = some (first, second, fourth)) :
    HwioVersion.parse str = do
      let major ← stoi first
      let minor ← stoi second
      match fourth with
      | [] => return { major := major, minor := minor, subminor := -1 }
      | byte :: _ =>
          if isAlpha byte then
            return { major := major, minor := minor, subminor := Int32.ofNat byte.toNat }
          else
            return { major := major, minor := minor, subminor := ← stoi fourth } := by
  rewrite [HwioVersion.parse, groups]
  rfl

theorem HwioVersion.parse_of_writes {str : Text} {version : HwioVersion}
    (writes : WritesVersion str version) : HwioVersion.parse str = .ok version := by
  cases writes with
  | pair major minor majorFits minorFits =>
      rw [parse_of_groups (versionGroups_pair major minor), stoi_digits major, stoi_digits minor,
        if_pos majorFits, if_pos minorFits]
      rfl
  | @triple first second third major minor subminor majorFits minorFits subminorFits =>
      rw [parse_of_groups (versionGroups_triple major minor (Or.inl subminor)), stoi_digits major,
        stoi_digits minor, stoi_digits subminor, if_pos majorFits, if_pos minorFits,
        if_pos subminorFits]
      cases third with
      | nil => exact absurd rfl subminor.1
      | cons byte rest =>
          have number := digit_not_alpha (subminor.2 byte List.mem_cons_self)
          show (if isAlpha byte = true then _ else _) = _
          rw [number]
          rfl
  | @letter first second letter major minor alpha majorFits minorFits =>
      have word : FourthGroup [letter] := Or.inr ⟨letter, by simp [isWord, alpha], rfl⟩
      rw [parse_of_groups (versionGroups_triple major minor word), stoi_digits major,
        stoi_digits minor, if_pos majorFits, if_pos minorFits]
      show (if isAlpha letter = true then _ else _) = _
      rw [alpha]
      rfl

/-- A text in the format is a version, or is left by an exception that is no
run-time error. -/
theorem HwioVersion.parse_matched {str first second fourth : Text}
    (groups : versionGroups str = some (first, second, fourth)) :
    (¬ Slips str ∧ ∃ version, WritesVersion str version) ∨
      Slips str ∧ HwioVersion.parse str = .error ⟨false, text "stoi"⟩ := by
  have ⟨major, minor, shape⟩ := versionGroups_eq_some_iff.mp groups
  have slips : (intMax < number first ∨ intMax < number second ∨
      (Digits fourth ∧ intMax < number fourth) ∨ fourth = text "_") ↔ Slips str := by
    constructor
    · intro wrong
      exact ⟨first, second, fourth, groups, wrong⟩
    · rintro ⟨_, _, _, same, wrong⟩
      obtain ⟨rfl, rest⟩ := Prod.mk.inj (Option.some.inj (groups.symm.trans same))
      obtain ⟨rfl, rfl⟩ := Prod.mk.inj rest
      exact wrong
  rw [← slips, parse_of_groups groups, stoi_digits major, stoi_digits minor]
  by_cases majorFits : number first ≤ intMax
  case neg =>
    rw [if_neg majorFits]
    exact Or.inr ⟨Or.inl (Nat.lt_of_not_le majorFits), rfl⟩
  by_cases minorFits : number second ≤ intMax
  case neg =>
    rw [if_pos majorFits, if_neg minorFits]
    exact Or.inr ⟨Or.inr (Or.inl (Nat.lt_of_not_le minorFits)), rfl⟩
  rw [if_pos majorFits, if_pos minorFits]
  have front : ¬ intMax < number first := Nat.not_lt.mpr majorFits
  have middle : ¬ intMax < number second := Nat.not_lt.mpr minorFits
  rcases shape with ⟨rfl, rfl⟩ | ⟨subminor, rfl⟩
  · refine Or.inl ⟨?_, _, .pair major minor majorFits minorFits⟩
    rintro (wrong | wrong | ⟨digits, _⟩ | wrong)
    · exact front wrong
    · exact middle wrong
    · exact digits.1 rfl
    · cases wrong
  rcases subminor.cases with digits | ⟨letter, alpha, rfl⟩ | rfl
  · by_cases fits : number fourth ≤ intMax
    · refine Or.inl ⟨?_, _, .triple major minor digits majorFits minorFits fits⟩
      rintro (wrong | wrong | ⟨_, wrong⟩ | rfl)
      · exact front wrong
      · exact middle wrong
      · exact absurd fits (Nat.not_le.mpr wrong)
      · exact absurd (digits.2 _ List.mem_cons_self) (by decide)
    · refine Or.inr ⟨Or.inr (Or.inr (Or.inl ⟨digits, Nat.lt_of_not_le fits⟩)), ?_⟩
      cases fourth with
      | nil => exact absurd rfl digits.1
      | cons byte rest =>
          have number := digit_not_alpha (digits.2 byte List.mem_cons_self)
          show (if isAlpha byte = true then _ else _) = _
          rw [number, stoi_digits digits, if_neg fits]
          rfl
  · refine Or.inl ⟨?_, _, .letter major minor alpha majorFits minorFits⟩
    rintro (wrong | wrong | ⟨digits, _⟩ | wrong)
    · exact front wrong
    · exact middle wrong
    · have digit := digit_not_alpha (digits.2 letter List.mem_cons_self)
      rw [alpha] at digit
      cases digit
    · obtain ⟨rfl, _⟩ := List.cons.inj wrong
      cases alpha
  · exact Or.inr ⟨Or.inr (Or.inr (Or.inr rfl)), rfl⟩

/-- A text is a version, in another format, or slips. -/
theorem HwioVersion.parse_cases (str : Text) :
    (¬ Slips str ∧ ∃ version, WritesVersion str version ∧ HwioVersion.parse str = .ok version) ∨
      (versionGroups str = none ∧ ¬ Slips str ∧
        HwioVersion.parse str = .error ⟨true, text "[HWIO] Wrong hwio_version format"⟩) ∨
      Slips str ∧ HwioVersion.parse str = .error ⟨false, text "stoi"⟩ := by
  cases groups : versionGroups str with
  | none =>
      refine Or.inr (Or.inl ⟨rfl, ?_, ?_⟩)
      · rintro ⟨_, _, _, same, _⟩
        cases groups.symm.trans same
      · rw [HwioVersion.parse, groups]
  | some parts =>
      obtain ⟨first, second, fourth⟩ := parts
      rcases parse_matched groups with ⟨fine, version, writes⟩ | slips
      · exact Or.inl ⟨fine, version, writes, parse_of_writes writes⟩
      · exact Or.inr (Or.inr slips)

/-! ## Compatibility strings -/

theorem findLastOf_eq_none {char : Byte} {str : Text} (absent : char ∉ str) :
    findLastOf char str = none := by
  induction str with
  | nil => rfl
  | cons byte rest before =>
      rw [List.mem_cons, not_or] at absent
      rw [findLastOf, before absent.2, if_neg (Ne.symm absent.1)]

theorem findLastOf_append (char : Byte) (front : Text) {back : Text} (absent : char ∉ back) :
    findLastOf char (front ++ char :: back) = some front.length := by
  induction front with
  | nil => rw [List.nil_append, findLastOf, findLastOf_eq_none absent, if_pos rfl, List.length_nil]
  | cons byte rest before => rw [List.cons_append, findLastOf, before, List.length_cons]

/-- A text with a character in it has a last one. -/
theorem last_occurrence {char : Byte} {str : Text} (present : char ∈ str) :
    ∃ front back, str = front ++ char :: back ∧ char ∉ back := by
  induction str with
  | nil => cases present
  | cons byte rest before =>
      by_cases later : char ∈ rest
      · have ⟨front, back, split, absent⟩ := before later
        exact ⟨byte :: front, back, by rw [split, List.cons_append], absent⟩
      · rcases List.mem_cons.mp present with rfl | inside
        · exact ⟨[], rest, rfl, later⟩
        · exact absurd inside later

theorem substr_behind (front : Text) (char : Byte) (back : Text) :
    substr (front ++ char :: back) (front.length + 1) (front ++ char :: back).length = back := by
  rw [substr, List.drop_append, List.drop_eq_nil_of_le (Nat.le_succ _), List.nil_append,
    Nat.add_sub_cancel_left, List.drop_one, List.tail_cons]
  apply List.take_of_length_le
  rw [List.length_append, List.length_cons]
  omega

theorem substr_front (front back : Text) : substr (front ++ back) 0 front.length = front := by
  rw [substr, List.drop_zero, List.take_left]

/-- A version text has no separator. -/
theorem WritesVersion.free {str : Text} {version : HwioVersion} (writes : WritesVersion str version) :
    comma ∉ str ∧ hyphen ∉ str := by
  have apart : ∀ {digits : Text}, Digits digits → comma ∉ digits ∧ hyphen ∉ digits := by
    intro digits all
    exact ⟨fun member => absurd (all.2 _ member) (by decide),
      fun member => absurd (all.2 _ member) (by decide)⟩
  have dotted : comma ≠ dot ∧ hyphen ≠ dot := by decide
  cases writes with
  | pair major minor majorFits minorFits =>
      simp [apart major, apart minor, dotted]
  | triple major minor subminor majorFits minorFits subminorFits =>
      simp [apart major, apart minor, apart subminor, dotted]
  | @letter first second letter major minor alpha majorFits minorFits =>
      have other : comma ≠ letter ∧ hyphen ≠ letter := by
        constructor
        · rintro rfl
          cases alpha
        · rintro rfl
          cases alpha
      simp [apart major, apart minor, dotted, other]

/-- The version behind the last hyphen decides where the type ends. -/
theorem versionOrType_behind {str front back : Text} (split : str = front ++ hyphen :: back)
    (typeEnd : Nat) :
    versionOrType str (front.length + 1) typeEnd =
      match HwioVersion.parse back with
      | .ok version => .ok (version, typeEnd)
      | .error exn => if exn.isRuntimeError then .ok (.na, str.length) else .error exn := by
  subst split
  rewrite [versionOrType, substr_behind]
  rfl

/-- A string without a comma. -/
theorem HwioCompSpec.parse_type {front back : Text} (free : comma ∉ front ++ hyphen :: back)
    (last : hyphen ∉ back) :
    HwioCompSpec.parse (front ++ hyphen :: back) = do
      let (version, typeEnd) ← versionOrType (front ++ hyphen :: back) (front.length + 1) front.length
      return { name := [], vendor := [], type := substr (front ++ hyphen :: back) 0 typeEnd,
               version := version } := by
  rw [HwioCompSpec.parse, findLastOf_eq_none free, findLastOf_append hyphen front last]

/-- A string with a comma. -/
theorem HwioCompSpec.parse_vendor {str vendor type front back : Text}
    (commas : str = vendor ++ comma :: type) (free : comma ∉ type)
    (hyphens : str = front ++ hyphen :: back) (last : hyphen ∉ back) :
    HwioCompSpec.parse str = do
      let (version, typeEnd) ← versionOrType str (front.length + 1)
        ((front.length + 2 ^ 64 - (vendor.length + 1)) % 2 ^ 64)
      return { name := [], vendor := substr str 0 vendor.length,
               type := substr str (vendor.length + 1) typeEnd, version := version } := by
  have comma := findLastOf_append comma vendor free
  have hyphen := findLastOf_append hyphen front last
  rw [← commas] at comma
  rw [← hyphens] at hyphen
  rw [HwioCompSpec.parse, comma, hyphen]

/-- A compatibility string with a version is taken apart into its vendor, its
type and its version, wherever the separators are in vendor and type.  The
length of a string fits a `size_t`. -/
theorem versioned_string_decomposes {vendor type written : Text} {version : HwioVersion}
    (free : comma ∉ type) (writes : WritesVersion written version) (small : type.length < 2 ^ 64) :
    HwioCompSpec.parse (vendor ++ comma :: (type ++ hyphen :: written)) =
        .ok { name := [], vendor := vendor, type := type, version := version } ∧
      HwioCompSpec.parse (type ++ hyphen :: written) =
        .ok { name := [], vendor := [], type := type, version := version } := by
  have ⟨noComma, noHyphen⟩ := writes.free
  have behind : comma ∉ type ++ hyphen :: written := by
    have other : comma ≠ hyphen := by decide
    simp [free, noComma, other]
  have parsed := HwioVersion.parse_of_writes writes
  constructor
  · have hyphens : vendor ++ comma :: (type ++ hyphen :: written) =
        (vendor ++ comma :: type) ++ hyphen :: written := by simp
    have typeEnd : ((vendor ++ comma :: type).length + 2 ^ 64 - (vendor.length + 1)) % 2 ^ 64 =
        type.length := by
      rw [List.length_append, List.length_cons]
      omega
    have typeOf : substr (vendor ++ comma :: (type ++ hyphen :: written)) (vendor.length + 1)
        type.length = type := by
      rw [substr, List.drop_append, List.drop_eq_nil_of_le (Nat.le_succ _), List.nil_append,
        Nat.add_sub_cancel_left, List.drop_one, List.tail_cons, List.take_left]
    rw [HwioCompSpec.parse_vendor rfl behind hyphens noHyphen, typeEnd,
      versionOrType_behind hyphens, parsed]
    show Except.ok _ = _
    rw [substr_front, typeOf]
  · rw [HwioCompSpec.parse_type behind noHyphen, versionOrType_behind rfl, parsed]
    show Except.ok _ = _
    rw [substr_front]

/-- The version 1.2.b of a type with a hyphen, from a vendor with both separators. -/
theorem hyphenated_string_decomposes :
    HwioCompSpec.parse (text "a,b-c,axi-dma-01.2.b") =
      .ok ⟨[], text "a,b-c", text "axi-dma", ⟨1, 2, 98⟩⟩ :=
  (@versioned_string_decomposes (text "a,b-c") (text "axi-dma") (text "01.2.b") ⟨1, 2, 98⟩ (by decide)
    (@WritesVersion.letter (text "01") (text "2") 98 (by decide) (by decide) rfl (by decide)
      (by decide)) (by decide)).1

/-- The text behind the last hyphen, if there is one, is no version. -/
def Unversioned (str : Text) : Prop :=
  ∀ front back, str = front ++ hyphen :: back → hyphen ∉ back → versionGroups back = none

/-- The version of an unversioned string is left out, and its type goes on to
the end. -/
theorem Unversioned.versionOrType {str front back : Text} (unversioned : Unversioned str)
    (split : str = front ++ hyphen :: back) (last : hyphen ∉ back) (typeEnd : Nat) :
    versionOrType str (front.length + 1) typeEnd = .ok (.na, str.length) := by
  rw [versionOrType_behind split, HwioVersion.parse, unversioned front back split last]
  rfl

theorem HwioCompSpec.parse_unversioned_type {type : Text} (free : comma ∉ type)
    (unversioned : Unversioned type) :
    HwioCompSpec.parse type = .ok { name := [], vendor := [], type := type, version := .na } := by
  by_cases present : hyphen ∈ type
  · have ⟨front, back, split, last⟩ := last_occurrence present
    have whole := unversioned.versionOrType split last front.length
    rw [split] at free whole
    rw [split, HwioCompSpec.parse_type free last, whole]
    show Except.ok _ = _
    rw [substr, List.drop_zero, List.take_length]
  · rw [HwioCompSpec.parse, findLastOf_eq_none free, findLastOf_eq_none present]

theorem HwioCompSpec.parse_unversioned {vendor type : Text} (free : comma ∉ type)
    (unversioned : Unversioned (vendor ++ comma :: type)) :
    HwioCompSpec.parse (vendor ++ comma :: type) =
      .ok
        { name := []
          vendor := vendor
          type := if hyphen ∈ vendor ++ comma :: type then type
            else [UInt8.ofNat (vendor.length + 1)]
          version := .na } := by
  by_cases present : hyphen ∈ vendor ++ comma :: type
  · have ⟨front, back, split, last⟩ := last_occurrence present
    rw [HwioCompSpec.parse_vendor rfl free split last, unversioned.versionOrType split last,
      if_pos present]
    show Except.ok _ = _
    rw [substr_front, substr_behind]
  · rw [HwioCompSpec.parse, findLastOf_append comma vendor free, findLastOf_eq_none present,
      if_neg present]
    show Except.ok _ = _
    rw [substr_front]

/-- A compatibility string without a version is taken apart into its vendor and
its type just when there is a hyphen in one of them, or the type happens to be
the character whose code is its own place.  Without a vendor the type is always
right. -/
theorem unversioned_string_decomposes_iff {vendor type : Text} (free : comma ∉ type) :
    (Unversioned (vendor ++ comma :: type) →
      (HwioCompSpec.parse (vendor ++ comma :: type) =
          .ok { name := [], vendor := vendor, type := type, version := .na } ↔
        hyphen ∈ vendor ∨ hyphen ∈ type ∨ type = [UInt8.ofNat (vendor.length + 1)])) ∧
      (Unversioned type → HwioCompSpec.parse type =
        .ok { name := [], vendor := [], type := type, version := .na }) := by
  refine ⟨fun unversioned => ?_, HwioCompSpec.parse_unversioned_type free⟩
  have present : hyphen ∈ vendor ++ comma :: type ↔ hyphen ∈ vendor ∨ hyphen ∈ type := by
    have other : hyphen ≠ comma := by decide
    simp [other]
  rw [HwioCompSpec.parse_unversioned free unversioned, ← or_assoc, ← present]
  by_cases hyphenated : hyphen ∈ vendor ++ comma :: type
  · rw [if_pos hyphenated]
    exact iff_of_true rfl (Or.inl hyphenated)
  · rw [if_neg hyphenated, or_iff_right hyphenated]
    constructor
    · intro same
      exact (congrArg HwioCompSpec.type (Except.ok.inj same)).symm
    · intro same
      rw [← same]

theorem axi_dma_decomposes :
    HwioCompSpec.parse (text "xlnx,axi-dma") =
        .ok ⟨[], text "xlnx", text "axi-dma", .na⟩ := by
  have unversioned : Unversioned (text "xlnx" ++ comma :: text "axi-dma") := by
    intro front back split last
    have same := findLastOf_append hyphen front last
    rw [← split, show findLastOf hyphen (text "xlnx" ++ comma :: text "axi-dma") = some 8 from by
      decide] at same
    have behind := substr_behind front hyphen back
    rw [← split, ← Option.some.inj same] at behind
    rw [← behind]
    decide
  exact ((@unversioned_string_decomposes_iff (text "xlnx") (text "axi-dma") (by decide)).1
    unversioned).mpr (by decide)

/-- Without a hyphen the type is lost. -/
theorem uart_type_lost :
    comma ∉ text "uart" ∧ Unversioned (text "xlnx" ++ comma :: text "uart") ∧
      HwioCompSpec.parse (text "xlnx" ++ comma :: text "uart") ≠
        .ok { name := [], vendor := text "xlnx", type := text "uart", version := .na } := by
  refine ⟨by decide, ?_, ?_⟩
  · intro front back split last
    have present : hyphen ∈ front ++ hyphen :: back := by simp
    rw [← split] at present
    exact absurd present (by decide)
  · have parsed : HwioCompSpec.parse (text "xlnx" ++ comma :: text "uart") =
        .ok { name := [], vendor := text "xlnx", type := [5], version := .na } := rfl
    rw [parsed]
    intro same
    have type := congrArg HwioCompSpec.type (Except.ok.inj same)
    revert type
    decide

/-! ## Exceptions -/

/-- The text behind the last hyphen slips. -/
def VersionSlips (str : Text) : Prop :=
  ∃ front back, str = front ++ hyphen :: back ∧ hyphen ∉ back ∧ Slips back

/-- A string gives a specification, or is left by the exception of `std::stoi`
for its version. -/
theorem HwioCompSpec.parse_cases (str : Text) :
    (¬ VersionSlips str ∧ ∃ spec, HwioCompSpec.parse str = .ok spec) ∨
      VersionSlips str ∧ HwioCompSpec.parse str = .error ⟨false, text "stoi"⟩ := by
  by_cases present : hyphen ∈ str
  · have ⟨front, back, split, last⟩ := last_occurrence present
    have slips : VersionSlips str ↔ Slips back := by
      constructor
      · rintro ⟨other, rest, same, absent, wrong⟩
        have left := findLastOf_append hyphen front last
        have right := findLastOf_append hyphen other absent
        rw [← split] at left
        rw [← same] at right
        have place := Option.some.inj (left.symm.trans right)
        have behind := substr_behind front hyphen back
        have behind' := substr_behind other hyphen rest
        rw [← split, place] at behind
        rw [← same, behind] at behind'
        exact behind' ▸ wrong
      · intro wrong
        exact ⟨front, back, split, last, wrong⟩
    have decided : ∀ typeEnd,
        (¬ Slips back ∧ ∃ result, Hwio.versionOrType str (front.length + 1) typeEnd = .ok result) ∨
          Slips back ∧ Hwio.versionOrType str (front.length + 1) typeEnd =
            .error ⟨false, text "stoi"⟩ := by
      intro typeEnd
      rw [versionOrType_behind split]
      rcases HwioVersion.parse_cases back with
        ⟨fine, version, _, parsed⟩ | ⟨_, fine, parsed⟩ | ⟨wrong, parsed⟩
      · rw [parsed]
        exact Or.inl ⟨fine, _, rfl⟩
      · rw [parsed]
        exact Or.inl ⟨fine, _, rfl⟩
      · rw [parsed]
        exact Or.inr ⟨wrong, rfl⟩
    rw [slips]
    by_cases vendored : comma ∈ str
    · have ⟨vendor, type, commas, free⟩ := last_occurrence vendored
      rw [HwioCompSpec.parse_vendor commas free split last]
      rcases decided ((front.length + 2 ^ 64 - (vendor.length + 1)) % 2 ^ 64) with
        ⟨fine, result, parsed⟩ | ⟨wrong, parsed⟩
      · rw [parsed]
        exact Or.inl ⟨fine, _, rfl⟩
      · rw [parsed]
        exact Or.inr ⟨wrong, rfl⟩
    · have decided := decided front.length
      rw [split] at vendored decided ⊢
      rw [HwioCompSpec.parse_type vendored last]
      rcases decided with ⟨fine, result, parsed⟩ | ⟨wrong, parsed⟩
      · rw [parsed]
        exact Or.inl ⟨fine, _, rfl⟩
      · rw [parsed]
        exact Or.inr ⟨wrong, rfl⟩
  · left
    constructor
    · rintro ⟨front, back, rfl, _⟩
      exact present (by simp)
    · rw [HwioCompSpec.parse, findLastOf_eq_none present]
      cases findLastOf comma str with
      | none => exact ⟨_, rfl⟩
      | some comma => exact ⟨_, rfl⟩

end Hwio
