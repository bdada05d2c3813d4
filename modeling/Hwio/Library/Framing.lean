import Mathlib.Data.List.Basic

/-!
Contract: streams of words whose first symbols tell where they end.

Owns self-delimiting codes, the words that a part of a stream is made of, and
what the symbols of an incomplete word can be.

Does not own any format of words.
-/

namespace Hwio.Library

variable {Word Symbol : Type}

/-- The first `header` symbols of a word tell the length of the whole word. -/
structure SelfDelimiting (code : Word → List Symbol) (header : Nat) (size : List Symbol → Nat) :
    Prop where
  header_pos : 0 < header
  header_le : ∀ word, header ≤ (code word).length
  size_eq : ∀ word, size ((code word).take header) = (code word).length
  injective : Function.Injective code

/-- Symbols that are too few for a header or for the word that it announces. -/
def Incomplete (header : Nat) (size : List Symbol → Nat) (pending : List Symbol) : Prop :=
  pending.length < header ∨ pending.length < size (pending.take header)

instance (header : Nat) (size : List Symbol → Nat) :
    DecidablePred (Incomplete header size) := fun _ =>
  inferInstanceAs (Decidable (_ ∨ _))

namespace SelfDelimiting

variable {code : Word → List Symbol} {header : Nat} {size : List Symbol → Nat}

/-- The front of a stream that holds a header shows the header of its first word. -/
theorem take_header (delimits : SelfDelimiting code header size) {word : Word}
    {front behind : List Symbol} (starts : front <+: code word ++ behind)
    (holds : header ≤ front.length) : front.take header = (code word).take header := by
  obtain ⟨back, whole⟩ := starts
  have same := congrArg (List.take header) whole
  rw [List.take_append_of_le_length holds,
    List.take_append_of_le_length (delimits.header_le word)] at same
  exact same

/-- The first word of a stream is determined. -/
theorem head_eq (delimits : SelfDelimiting code header size) {word other : Word}
    {rest behind : List Symbol} (starts : code word ++ rest <+: code other ++ behind) :
    word = other ∧ rest <+: behind := by
  have headers := delimits.take_header starts (by
    rw [List.length_append]
    exact Nat.le_add_right_of_le (delimits.header_le word))
  rw [List.take_append_of_le_length (delimits.header_le word)] at headers
  have lengths : (code word).length = (code other).length := by
    rw [← delimits.size_eq word, headers, delimits.size_eq other]
  obtain ⟨back, whole⟩ := starts
  rw [List.append_assoc] at whole
  obtain ⟨same, rests⟩ := List.append_inj whole lengths
  exact ⟨delimits.injective same, back, rests⟩

/-- Words read off the front of a stream are its first words, and what is left
belongs to the others. -/
theorem words_eq (delimits : SelfDelimiting code header size) {read sent : List Word}
    {rest : List Symbol} (starts : read.flatMap code ++ rest <+: sent.flatMap code) :
    ∃ later, sent = read ++ later ∧ rest <+: later.flatMap code := by
  induction read generalizing sent with
  | nil => exact ⟨sent, rfl, starts⟩
  | cons word more inductionHypothesis =>
      rw [List.flatMap_cons, List.append_assoc] at starts
      cases sent with
      | nil =>
          have empty := List.append_eq_nil_iff.mp (List.prefix_nil.mp starts)
          have positive := Nat.lt_of_lt_of_le delimits.header_pos (delimits.header_le word)
          rw [empty.1] at positive
          exact absurd positive (Nat.lt_irrefl 0)
      | cons other others =>
          rw [List.flatMap_cons] at starts
          obtain ⟨rfl, inner⟩ := delimits.head_eq starts
          obtain ⟨later, rfl, starts'⟩ := inductionHypothesis inner
          exact ⟨later, rfl, starts'⟩

/-- Incomplete symbols are a strict part of the next word. -/
theorem pending_lt (delimits : SelfDelimiting code header size) {words : List Word}
    {pending : List Symbol} (starts : pending <+: words.flatMap code)
    (incomplete : Incomplete header size pending) :
    pending = [] ∨ ∃ word later, words = word :: later ∧ pending <+: code word ∧
      pending.length < (code word).length := by
  cases words with
  | nil => exact Or.inl (List.prefix_nil.mp starts)
  | cons word later =>
      right
      rw [List.flatMap_cons] at starts
      have short : pending.length < (code word).length := by
        rcases incomplete with noHeader | noWord
        · exact Nat.lt_of_lt_of_le noHeader (delimits.header_le word)
        · by_cases holds : header ≤ pending.length
          · rw [delimits.take_header starts holds, delimits.size_eq word] at noWord
            exact noWord
          · exact Nat.lt_of_lt_of_le (Nat.lt_of_not_le holds) (delimits.header_le word)
      refine ⟨word, later, rfl, ?_, short⟩
      exact List.prefix_of_prefix_length_le starts (List.prefix_append _ _) (Nat.le_of_lt short)

end SelfDelimiting

/-! ## Parts of a stream -/

/-- When the parts that were taken off a stream are the first parts that were
put into it, what is left belongs to the others. -/
theorem rest_prefix_of_taken {taken given : List (List Symbol)} {rest : List Symbol}
    (arrived : taken.flatten ++ rest <+: given.flatten)
    (same : ∀ k < taken.length, given.getD k [] = taken.getD k []) :
    rest <+: (given.drop taken.length).flatten := by
  induction taken generalizing given with
  | nil => exact arrived
  | cons part more before =>
      have first := same 0 (Nat.zero_lt_succ _)
      cases given with
      | nil =>
          obtain ⟨_, none⟩ := List.append_eq_nil_iff.mp (List.prefix_nil.mp arrived)
          rw [none]
          exact List.nil_prefix
      | cons head others =>
          obtain rfl : head = part := first
          rw [List.flatten_cons, List.flatten_cons, List.append_assoc,
            List.prefix_append_right_inj] at arrived
          exact before arrived fun k inside => same (k + 1) (Nat.succ_lt_succ inside)

end Hwio.Library
