import Hwio.Bus.Compatibility

/-!
Contract: the texts that versions and specifications are printed as.

Owns `hwio_version::to_str` and `hwio_comp_spec::to_str`, and what the constructors
make of their texts.

Does not own where they are printed.
-/

namespace Hwio

open Library

/-! ## Printing -/

/-- `operator<<` of an `int` -/
def decimalInt (value : Int32) : Text :=
  if value < 0 then hyphen :: decimal (-value.toInt).toNat else decimal value.toInt.toNat

/-- A component of a version -/
def printComponent (value : Int32) : Text :=
  if value = -1 then text "<NA>" else decimalInt value

/-- `hwio_version::to_str` -/
def HwioVersion.toStr (version : HwioVersion) : Text :=
  printComponent version.major ++ dot :: (printComponent version.minor ++
    dot :: printComponent version.subminor)

/-- `hwio_comp_spec::to_str` -/
def HwioCompSpec.toStr (spec : HwioCompSpec) : Text :=
  spec.name ++ text ":" ++ spec.vendor ++ comma :: (spec.type ++ hyphen :: spec.version.toStr)

/-! ## Numbers -/

/-- The byte of a digit. -/
theorem byte_of_digit {value : Nat} {char : Char} (digit : char ∈ Nat.toDigits 10 value) :
    (UInt8.ofNat char.toNat).toNat = char.toNat ∧ isDigit (UInt8.ofNat char.toNat) = true := by
  have range := Nat.isDigit_of_mem_toDigits (by decide) (by decide) digit
  simp only [Char.isDigit, Bool.and_eq_true, decide_eq_true_eq] at range
  have low : 48 ≤ char.toNat := UInt32.le_iff_toNat_le.mp range.1
  have high : char.toNat ≤ 57 := UInt32.le_iff_toNat_le.mp range.2
  have same : (UInt8.ofNat char.toNat).toNat = char.toNat :=
    UInt8.toNat_ofNat_of_lt' (Nat.lt_of_le_of_lt high (by decide))
  refine ⟨same, ?_⟩
  simp only [isDigit, Bool.and_eq_true, decide_eq_true_eq, UInt8.le_iff_toNat_le, same,
    UInt8.reduceToNat]
  exact ⟨low, high⟩

theorem digits_decimal (value : Nat) : Digits (decimal value) := by
  constructor
  · intro none
    exact Nat.toDigits_ne_nil (List.map_eq_nil_iff.mp none)
  · intro byte member
    obtain ⟨char, digit, rfl⟩ := List.mem_map.mp member
    exact (byte_of_digit digit).2

theorem number_decimal (value : Nat) : number (decimal value) = value := by
  rw [number, decimal, List.foldl_map]
  rw [List.foldl_ext _ (fun sofar char => 10 * sofar + (char.toNat - '0'.toNat)) 0
    fun sofar char digit => by rw [(byte_of_digit digit).1]; rfl]
  exact Nat.ofDigitChars_toDigits (by decide) (by decide)

/-- A component that is not negative is printed as its number. -/
theorem printComponent_of_nonneg {value : Int32} (positive : 0 ≤ value) :
    printComponent value = decimal value.toInt.toNat ∧ value.toInt.toNat ≤ intMax ∧
      Int32.ofNat value.toInt.toNat = value := by
  have sign := Int32.le_iff_toInt_le.mp positive
  have below := Int32.toInt_lt value
  refine ⟨?_, ?_, ?_⟩
  · unfold printComponent decimalInt
    rw [if_neg (by rintro rfl; exact absurd sign (by decide)), if_neg]
    intro negative
    exact absurd (Int32.lt_iff_toInt_lt.mp negative) (Int.not_lt.mpr sign)
  · unfold intMax
    omega
  · exact Int32.ofNat_toNatClampNeg value positive

/-- A negative one neither begins with a digit nor is a single character. -/
theorem printComponent_of_neg {value : Int32} (negative : value < 0) :
    ∃ sign rest, printComponent value = sign :: rest ∧ isDigit sign = false ∧ rest ≠ [] := by
  unfold printComponent decimalInt
  by_cases na : value = -1
  · rw [if_pos na]
    exact ⟨60, text "NA>", rfl, by decide, by decide⟩
  · rw [if_neg na, if_pos negative]
    exact ⟨hyphen, _, rfl, by decide, (digits_decimal _).1⟩

theorem Digits.undotted {digits : Text} (all : Digits digits) : dot ∉ digits :=
  fun member => absurd (all.2 dot member) (by decide)

theorem printComponent_undotted (value : Int32) : dot ∉ printComponent value := by
  unfold printComponent decimalInt
  split
  · decide
  · split
    · rw [List.mem_cons, not_or]
      exact ⟨by decide, (digits_decimal _).undotted⟩
    · exact (digits_decimal _).undotted

/-- A text has one first dot. -/
theorem first_dot {front front' back back' : Text} (free : dot ∉ front) (free' : dot ∉ front')
    (same : front ++ dot :: back = front' ++ dot :: back') : front = front' ∧ back = back' := by
  have before : ∀ {front back : Text}, dot ∉ front →
      (front ++ dot :: back).takeWhile (· ≠ dot) = front := by
    intro front back free
    have all : ∀ byte ∈ front, decide (byte ≠ dot) = true := fun byte member =>
      decide_eq_true fun isDot => free (isDot ▸ member)
    rw [List.takeWhile_append_of_pos all, List.takeWhile_cons_of_neg (by simp), List.append_nil]
  have fronts : front = front' := by rw [← before free, same, before free']
  subst fronts
  exact ⟨rfl, (List.cons.inj (List.append_cancel_left same)).2⟩

/-- A component in the format of the last is not negative. -/
theorem printComponent_nonneg {value : Int32} (group : FourthGroup (printComponent value)) :
    0 ≤ value := by
  by_contra below
  obtain ⟨sign, rest, printed, other, some⟩ := printComponent_of_neg (Int32.not_le.mp below)
  rw [printed] at group
  rcases group with digits | ⟨byte, _, single⟩
  · rw [digits.2 sign List.mem_cons_self] at other
    cases other
  · exact some (List.cons.inj single).2

/-! ## Versions -/

/-- A version that no component is left open of. -/
def HwioVersion.Complete (version : HwioVersion) : Prop :=
  0 ≤ version.major ∧ 0 ≤ version.minor ∧ 0 ≤ version.subminor

instance (version : HwioVersion) : Decidable version.Complete :=
  inferInstanceAs (Decidable (_ ∧ _))

theorem HwioVersion.Complete.writes {version : HwioVersion} (complete : version.Complete) :
    WritesVersion version.toStr version := by
  obtain ⟨major, minor, subminor⟩ := version
  obtain ⟨majorText, majorFits, majorSame⟩ := printComponent_of_nonneg complete.1
  obtain ⟨minorText, minorFits, minorSame⟩ := printComponent_of_nonneg complete.2.1
  obtain ⟨subminorText, subminorFits, subminorSame⟩ := printComponent_of_nonneg complete.2.2
  have writes := @WritesVersion.triple _ _ _ (digits_decimal major.toInt.toNat)
    (digits_decimal minor.toInt.toNat) (digits_decimal subminor.toInt.toNat)
    (by rwa [number_decimal]) (by rwa [number_decimal]) (by rwa [number_decimal])
  simp only [number_decimal] at writes majorSame minorSame subminorSame
  rw [majorSame, minorSame, subminorSame] at writes
  simp only [HwioVersion.toStr, majorText, minorText, subminorText]
  exact writes

/-- The text of any other version is not in the format. -/
theorem HwioVersion.toStr_mismatch {version : HwioVersion} (open' : ¬ version.Complete) :
    versionGroups version.toStr = none := by
  cases groups : versionGroups version.toStr with
  | none => rfl
  | some parts =>
      obtain ⟨first, second, fourth⟩ := parts
      obtain ⟨major, minor, shape⟩ := versionGroups_eq_some_iff.mp groups
      exfalso
      rcases shape with ⟨_, same⟩ | ⟨group, same⟩
      · obtain ⟨_, behind⟩ := first_dot (printComponent_undotted _) major.undotted same
        apply minor.undotted
        rw [← behind]
        simp
      · obtain ⟨rfl, behind⟩ := first_dot (printComponent_undotted _) major.undotted same
        obtain ⟨rfl, rfl⟩ := first_dot (printComponent_undotted _) minor.undotted behind
        exact open' ⟨printComponent_nonneg (Or.inl major), printComponent_nonneg (Or.inl minor),
          printComponent_nonneg group⟩

theorem HwioVersion.parse_toStr (version : HwioVersion) :
    HwioVersion.parse version.toStr =
      if version.Complete then .ok version
      else .error ⟨true, text "[HWIO] Wrong hwio_version format"⟩ := by
  by_cases complete : version.Complete
  · rw [if_pos complete]
    exact parse_of_writes complete.writes
  · rw [if_neg complete, HwioVersion.parse, toStr_mismatch complete]

theorem ofNat_nonneg {value : Nat} (fits : value ≤ intMax) : 0 ≤ Int32.ofNat value := by
  rw [Int32.le_iff_toInt_le, Int32.toInt_ofNat_of_lt (Nat.lt_of_le_of_lt fits (by decide))]
  exact Int.natCast_nonneg value

theorem nonneg_ne_na {value : Int32} (positive : 0 ≤ value) : value ≠ -1 := by
  rintro rfl
  exact absurd positive (by decide)

/-- Of what a text writes only the last component may be open. -/
theorem WritesVersion.complete_iff {str : Text} {version : HwioVersion}
    (writes : WritesVersion str version) : version.Complete ↔ version.subminor ≠ -1 := by
  cases writes with
  | pair major minor majorFits minorFits =>
      exact iff_of_false (fun complete => nonneg_ne_na complete.2.2 rfl) fun other => other rfl
  | triple major minor subminor majorFits minorFits subminorFits =>
      exact iff_of_true ⟨ofNat_nonneg majorFits, ofNat_nonneg minorFits, ofNat_nonneg subminorFits⟩
        (nonneg_ne_na (ofNat_nonneg subminorFits))
  | @letter first second letter major minor alpha majorFits minorFits =>
      have small : letter.toNat ≤ intMax := Nat.le_trans (Nat.le_of_lt letter.toNat_lt) (by decide)
      exact iff_of_true ⟨ofNat_nonneg majorFits, ofNat_nonneg minorFits, ofNat_nonneg small⟩
        (nonneg_ne_na (ofNat_nonneg small))

/-- It is open just when there is no second dot. -/
theorem WritesVersion.subminor_iff {str : Text} {version : HwioVersion}
    (writes : WritesVersion str version) : version.subminor ≠ -1 ↔ str.count dot = 2 := by
  have none : ∀ {digits : Text}, Digits digits → digits.count dot = 0 := fun all =>
    List.count_eq_zero.mpr all.undotted
  cases writes with
  | pair major minor majorFits minorFits =>
      rw [List.count_append, List.count_cons_self, none major, none minor]
      exact iff_of_false (fun other => other rfl) (by decide)
  | triple major minor subminor majorFits minorFits subminorFits =>
      rw [List.count_append, List.count_cons_self, List.count_append, List.count_cons_self,
        none major, none minor, none subminor]
      exact iff_of_true (nonneg_ne_na (ofNat_nonneg subminorFits)) rfl
  | @letter first second letter major minor alpha majorFits minorFits =>
      have small : letter.toNat ≤ intMax := Nat.le_trans (Nat.le_of_lt letter.toNat_lt) (by decide)
      have other : letter ≠ dot := by
        rintro rfl
        exact absurd alpha (by decide)
      rw [List.count_append, List.count_cons_self, List.count_append, List.count_cons_self,
        List.count_cons_of_ne other, none major, none minor, List.count_nil]
      exact iff_of_true (nonneg_ne_na (ofNat_nonneg small)) rfl

/-! ## Specifications -/

/-- The last of some characters is not in front of one of them. -/
theorem findLastOf_behind (char : Byte) (front back : Text) :
    ∃ position, findLastOf char (front ++ char :: back) = some position ∧
      front.length ≤ position ∧ position ≤ (front ++ char :: back).length := by
  by_cases later : char ∈ back
  · obtain ⟨middle, rest, rfl, last⟩ := last_occurrence later
    have found := findLastOf_append char (front ++ char :: middle) last
    rw [List.append_assoc, List.cons_append] at found
    refine ⟨_, found, ?_, ?_⟩
    · simp
    · simp
  · exact ⟨front.length, findLastOf_append char front later, Nat.le_refl _, by simp⟩

/-- The vendor is what is in front of the last comma. -/
theorem HwioCompSpec.parse_vendor_length {str : Text} {position : Nat}
    (found : findLastOf comma str = some position) (inside : position ≤ str.length)
    {spec : HwioCompSpec} (parsed : HwioCompSpec.parse str = .ok spec) :
    spec.vendor.length = position := by
  have length : (substr str 0 position).length = position := by
    rw [substr, List.drop_zero, List.length_take, Nat.min_eq_left inside]
  rw [HwioCompSpec.parse, found] at parsed
  cases hyphens : findLastOf hyphen str with
  | none =>
      rw [hyphens] at parsed
      cases parsed
      exact length
  | some last =>
      rw [hyphens] at parsed
      simp only at parsed
      cases versioned : versionOrType str (last + 1)
        ((last + 2 ^ 64 - (position + 1)) % 2 ^ 64) with
      | error exn =>
          rw [versioned] at parsed
          cases parsed
      | ok pair =>
          rw [versioned] at parsed
          cases parsed
          exact length

/-- A printed specification is read back with a longer vendor, if at all. -/
theorem HwioCompSpec.parse_toStr_ne (spec : HwioCompSpec) :
    HwioCompSpec.parse spec.toStr ≠ .ok spec := by
  intro parsed
  obtain ⟨position, found, behind, inside⟩ := findLastOf_behind comma
    (spec.name ++ text ":" ++ spec.vendor) (spec.type ++ hyphen :: spec.version.toStr)
  have length := parse_vendor_length found inside parsed
  rw [← length, List.length_append, List.length_append] at behind
  have colon : (text ":").length = 1 := rfl
  omega

/-- A version is read back from its text just when no component is negative, and
else the text has a wrong format; so a version that was read from a text is read
back from its own just when it is not open in its last component, that is when its
text had a second dot and a third component behind it.  No specification is read
back from its text: the name is taken for a part of the vendor. -/
theorem printed_read_back :
    (∀ version, HwioVersion.parse version.toStr =
        if version.Complete then .ok version
        else .error ⟨true, text "[HWIO] Wrong hwio_version format"⟩) ∧
      (∀ str version, HwioVersion.parse str = .ok version →
        (HwioVersion.parse version.toStr = .ok version ↔ version.subminor ≠ -1) ∧
          (version.subminor ≠ -1 ↔ str.count dot = 2)) ∧
      ∀ spec, HwioCompSpec.parse spec.toStr ≠ .ok spec := by
  refine ⟨HwioVersion.parse_toStr, ?_, HwioCompSpec.parse_toStr_ne⟩
  intro str version parsed
  have writes : WritesVersion str version := by
    rcases HwioVersion.parse_cases str with
      ⟨_, other, writes, same⟩ | ⟨_, _, fails⟩ | ⟨_, fails⟩
    · rw [same] at parsed
      exact Except.ok.inj parsed ▸ writes
    · rw [fails] at parsed
      cases parsed
    · rw [fails] at parsed
      cases parsed
  refine ⟨?_, writes.subminor_iff⟩
  rw [HwioVersion.parse_toStr, ← writes.complete_iff]
  by_cases complete : version.Complete
  · rw [if_pos complete]
    exact iff_of_true rfl complete
  · rw [if_neg complete]
    exact iff_of_false (by simp) complete

end Hwio
