import Hwio.Bus.Devicetree

/-!
Contract: the strings of a `compatible` file.

Owns the pieces of a file between its zeros, the bytes that the loop of
`dev_parse_compat` looks at, and the agreement of its result with the pieces.

Does not own what the strings mean.
-/

namespace Hwio

open Library

/-! ## Pieces -/

/-- The maximal pieces without a zero, in order; behind a final zero there is
none. -/
def pieces (file : List Byte) : List Text :=
  let parts := file.splitOn 0
  if parts.getLast? = some [] then parts.dropLast else parts

@[simp] theorem pieces_nil : pieces [] = [] := rfl

theorem pieces_of_not_mem {file : List Byte} (some : file ≠ []) (free : 0 ∉ file) :
    pieces file = [file] := by
  rw [pieces, List.splitOn_eq_singleton free]
  apply if_neg
  intro empty
  exact some (Option.some.inj empty)

theorem pieces_append {front : List Byte} (free : 0 ∉ front) (back : List Byte) :
    pieces (front ++ 0 :: back) = front :: pieces back := by
  obtain ⟨head, tail, parts⟩ := List.exists_cons_of_ne_nil (List.splitOn_ne_nil 0 back)
  rw [pieces, pieces, List.splitOn_append_cons_self_of_not_mem free, parts]
  simp only [List.getLast?_cons_cons, List.dropLast_cons_cons]
  split
  · rfl
  · rfl

/-- What each string is followed by comes back as the strings. -/
theorem pieces_flatMap {strings : List Text} (free : ∀ string ∈ strings, 0 ∉ string) :
    pieces (strings.flatMap (· ++ [0])) = strings := by
  induction strings with
  | nil => rfl
  | cons string rest inductionHypothesis =>
      have later := inductionHypothesis fun other member => free other (List.mem_cons_of_mem _ member)
      rw [List.flatMap_cons, List.append_assoc, List.singleton_append,
        pieces_append (free string List.mem_cons_self), later]

/-! ## The loop -/

/-- The positions that the loop of `dev_parse_compat` looks at: `strlen` and
`strdup` go over a string and its zero. -/
def compatReads (content : List Byte) (length : Nat) : Nat → Nat → List Nat
  | 0, _ => []
  | fuel + 1, actualLength =>
      if actualLength < length then
        let l := strlen (content.drop actualLength)
        List.range' actualLength (l + 1) ++ compatReads content length fuel (actualLength + l + 1)
      else []

theorem strlen_append {string : List Byte} (free : 0 ∉ string) (rest : List Byte) :
    strlen (string ++ 0 :: rest) = string.length := by
  rw [strlen, show (string ++ 0 :: rest).takeWhile (fun byte => byte ≠ 0) =
    cstr (string ++ 0 :: rest) from rfl, cstr_append_of_not_mem free, cstr_cons_zero,
    List.append_nil]

/-- Behind the declared length the loop is over. -/
theorem compatLoop_behind {content : List Byte} {length actualLength : Nat}
    (behind : length ≤ actualLength) (fuel : Nat) :
    compatLoop content length fuel actualLength = [] ∧
      compatReads content length fuel actualLength = [] := by
  cases fuel with
  | zero => exact ⟨rfl, rfl⟩
  | succ fuel => exact ⟨if_neg (Nat.not_lt.mpr behind), if_neg (Nat.not_lt.mpr behind)⟩

/-- A round takes the string at its position, and looks no further than its zero. -/
theorem compatLoop_round {before string rest : List Byte} (free : 0 ∉ string) {length : Nat}
    (inside : before.length < length) (fuel : Nat) :
    let content := before ++ (string ++ 0 :: rest)
    compatLoop content length (fuel + 1) before.length =
        string :: compatLoop content length fuel (before.length + string.length + 1) ∧
      compatReads content length (fuel + 1) before.length =
        List.range' before.length (string.length + 1) ++
          compatReads content length fuel (before.length + string.length + 1) := by
  intro content
  have actual : content.drop before.length = string ++ 0 :: rest := List.drop_left
  constructor
  · rw [compatLoop, if_pos inside]
    simp only [actual, strlen_append free, List.take_left]
  · rw [compatReads, if_pos inside]
    simp only [actual, strlen_append free]

/-- The loop takes the pieces of what is left of the file, whatever is behind
the zero that was put there, which is the last byte that it looks at. -/
theorem compatLoop_pieces (before file behind : List Byte) {fuel : Nat}
    (enough : file.length ≤ fuel) :
    let content := before ++ (file ++ 0 :: behind)
    let length := before.length + file.length
    compatLoop content length fuel before.length = pieces file ∧
      ∀ position ∈ compatReads content length fuel before.length, position ≤ length := by
  induction fuel generalizing before file with
  | zero =>
      obtain rfl := List.eq_nil_of_length_eq_zero (Nat.le_zero.mp enough)
      refine ⟨rfl, fun position member => ?_⟩
      cases member
  | succ fuel inductionHypothesis =>
      intro content length
      by_cases none : file = []
      · subst none
        have behindEnd := @compatLoop_behind content _ _ (Nat.le_refl length) (fuel + 1)
        refine ⟨behindEnd.1, fun position member => ?_⟩
        have same := behindEnd.2
        change compatReads content length (fuel + 1) before.length = [] at same
        rw [same] at member
        cases member
      have inside : before.length < length :=
        Nat.lt_add_of_pos_right (List.length_pos_iff.mpr none)
      by_cases free : 0 ∉ file
      · -- the last string ends at the zero behind the file
        obtain ⟨taken, read⟩ := @compatLoop_round before file behind free _ inside fuel
        obtain ⟨noMore, noRead⟩ := @compatLoop_behind content _ _
          (show length ≤ before.length + file.length + 1 from Nat.le_succ _) fuel
        refine ⟨?_, fun position member => ?_⟩
        · rw [taken, pieces_of_not_mem none free]
          exact congrArg (file :: ·) noMore
        · rw [read, show compatReads (before ++ (file ++ 0 :: behind)) length fuel _ = []
            from noRead, List.append_nil, List.mem_range'_1] at member
          exact Nat.le_of_lt_succ member.2
      · obtain ⟨front, back, rfl, early⟩ := List.eq_append_cons_of_mem (not_not.mp free)
        have whole : content = before ++ (front ++ 0 :: (back ++ 0 :: behind)) := by
          simp [content]
        have moved : content = (before ++ (front ++ [0])) ++ (back ++ 0 :: behind) := by
          simp [content]
        have position : before.length + front.length + 1 = (before ++ (front ++ [0])).length := by
          rw [List.length_append, List.length_append]
          rfl
        have last : length = (before ++ (front ++ [0])).length + back.length := by
          simp only [length, List.length_append, List.length_cons, List.length_nil]
          omega
        obtain ⟨taken, read⟩ := @compatLoop_round before front (back ++ 0 :: behind) early _ inside fuel
        obtain ⟨later, laterRead⟩ := inductionHypothesis (before ++ (front ++ [0])) back (by
          simp only [List.length_append, List.length_cons] at enough
          omega)
        rw [← whole, position] at taken read
        rw [← moved, ← last] at later laterRead
        refine ⟨?_, fun place member => ?_⟩
        · rw [taken, later, pieces_append early]
        · rw [read] at member
          rcases List.mem_append.mp member with here | behind
          · rw [List.mem_range'_1] at here
            rw [← position] at last
            omega
          · exact laterRead place behind

/-- For every file: the loop ends, looks at no byte behind the zero that
`file_read` puts there, and returns the pieces; and every list of strings is
returned from its strings with a zero behind each. -/
theorem compatible_strings_split (file : List Byte) :
    (∀ behind fuel, file.length ≤ fuel →
      compatLoop (file ++ 0 :: behind) file.length fuel 0 = pieces file ∧
        ∀ position ∈ compatReads (file ++ 0 :: behind) file.length fuel 0,
          position ≤ file.length) ∧
    (∀ tree pathStack fname, fileRead tree pathStack fname = .ok file →
      devParseCompat tree pathStack fname = .ok (pieces file)) ∧
    ∀ strings : List Text, (∀ string ∈ strings, 0 ∉ string) →
      compatibilityStrings (strings.flatMap (· ++ [0])) = strings := by
  have split : ∀ file : List Byte, ∀ behind fuel, file.length ≤ fuel →
      compatLoop (file ++ 0 :: behind) file.length fuel 0 = pieces file ∧
        ∀ position ∈ compatReads (file ++ 0 :: behind) file.length fuel 0,
          position ≤ file.length := by
    intro file behind fuel enough
    have walked := compatLoop_pieces [] file behind enough
    simp only [List.nil_append, List.length_nil, Nat.zero_add] at walked
    exact walked
  have returned : ∀ file, compatibilityStrings file = pieces file := fun file =>
    (split file [] file.length (Nat.le_refl _)).1
  refine ⟨split file, fun tree pathStack fname read => ?_, fun strings free => ?_⟩
  · rw [devParseCompat, read, ← returned]
    rfl
  · rw [returned, pieces_flatMap free]

/-- A file with an empty string and without a final zero. -/
theorem unterminated_strings_split :
    compatLoop (text "dma" ++ 0 :: 0 :: text "uart" ++ 0 :: [7]) 9 9 0 =
      [text "dma", [], text "uart"] :=
  ((compatible_strings_split (text "dma" ++ 0 :: 0 :: text "uart")).1 [7] 9 (by decide)).1

end Hwio
