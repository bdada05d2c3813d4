import Mathlib.Logic.Function.Iterate
import Mathlib.Order.CompletePartialOrder
import Mathlib.Order.Interval.Set.Disjoint

/-!
Contract: buffers that are refilled behind what is left in them, and from whose
front words are taken off.

Owns the refills of a buffer, what is in it after them and what is left of that,
and when the rest can be copied to the front of the buffer without an overlap.

Does not own how long a word is.
-/

namespace Hwio.Library

variable {Symbol : Type}

/-! ## Refills -/

/-- Some symbols that come, and the number of words taken off before more come. -/
structure Refill (Symbol : Type) where
  chunk : List Symbol
  words : Nat
deriving DecidableEq, Repr

/-- More symbols come. -/
def refill (chunk : List Symbol) (refills : List (Refill Symbol)) : List (Refill Symbol) :=
  ⟨chunk, 0⟩ :: refills

/-- One more word is taken off. -/
def takeOff : List (Refill Symbol) → List (Refill Symbol)
  | [] => []
  | last :: earlier => { last with words := last.words + 1 } :: earlier

section

variable (behind : List Symbol → List Symbol)

/-- What the buffer holds after some refills, the last one first, when `behind`
takes the word at the front off. -/
def remaining : List (Refill Symbol) → List Symbol
  | [] => []
  | last :: earlier => behind^[last.words] (remaining earlier ++ last.chunk)

/-- What the buffer held before words were taken off behind the last refill. -/
def filled : List (Refill Symbol) → List Symbol
  | [] => []
  | last :: earlier => remaining behind earlier ++ last.chunk

@[simp] theorem filled_refill (chunk : List Symbol) (refills : List (Refill Symbol)) :
    filled behind (refill chunk refills) = remaining behind refills ++ chunk := rfl

@[simp] theorem remaining_refill (chunk : List Symbol) (refills : List (Refill Symbol)) :
    remaining behind (refill chunk refills) = remaining behind refills ++ chunk := rfl

@[simp] theorem filled_takeOff (refills : List (Refill Symbol)) :
    filled behind (takeOff refills) = filled behind refills := by
  cases refills with
  | nil => rfl
  | cons last earlier => rfl

theorem remaining_takeOff {refills : List (Refill Symbol)} (some : refills ≠ []) :
    remaining behind (takeOff refills) = behind (remaining behind refills) := by
  cases refills with
  | nil => exact absurd rfl some
  | cons last earlier => exact Function.iterate_succ_apply' behind last.words _

/-- A word taken off changes only the last refill. -/
@[simp] theorem tail_takeOff (refills : List (Refill Symbol)) :
    (takeOff refills).tail = refills.tail := by
  cases refills with
  | nil => rfl
  | cons last earlier => rfl

/-- At most half of what the buffer held behind the last refill is still there. -/
def AtMostHalf (refills : List (Refill Symbol)) : Prop :=
  2 * (remaining behind refills).length ≤ (filled behind refills).length

instance (refills : List (Refill Symbol)) : Decidable (AtMostHalf behind refills) :=
  inferInstanceAs (Decidable (_ ≤ _))

/-! ## Whole words -/

variable (NoWord : List Symbol → Prop)

/-- Behind every refill, words were taken off down to a rest that is none. -/
def UsedUp : List (Refill Symbol) → Prop
  | [] => True
  | last :: earlier => NoWord (remaining behind (last :: earlier)) ∧ UsedUp earlier

/-- Only words were taken off. -/
def OnlyWords : List (Refill Symbol) → Prop
  | [] => True
  | last :: earlier =>
      (∀ taken < last.words, ¬ NoWord (behind^[taken] (remaining behind earlier ++ last.chunk))) ∧
        OnlyWords earlier

/-- How many words stand at the front of some symbols. -/
def wordsAt [DecidablePred NoWord] : Nat → List Symbol → Nat
  | 0, _ => 0
  | fuel + 1, symbols => if NoWord symbols then 0 else wordsAt fuel (behind symbols) + 1

/-- The refills that some chunks make, the last one first, when all words are
taken off behind each. -/
def cut [DecidablePred NoWord] : List (List Symbol) → List (Refill Symbol)
  | [] => []
  | chunk :: earlier =>
      let held := remaining behind (cut earlier) ++ chunk
      ⟨chunk, wordsAt behind NoWord held.length held⟩ :: cut earlier

variable {behind} {NoWord}

theorem UsedUp.tail {refills : List (Refill Symbol)} (used : UsedUp behind NoWord refills) :
    UsedUp behind NoWord refills.tail := by
  cases refills with
  | nil => exact used
  | cons last earlier => exact used.2

theorem OnlyWords.refill {refills : List (Refill Symbol)}
    (only : OnlyWords behind NoWord refills) (chunk : List Symbol) :
    OnlyWords behind NoWord (refill chunk refills) :=
  ⟨fun taken below => absurd below (Nat.not_lt_zero taken), only⟩

theorem OnlyWords.takeOff {refills : List (Refill Symbol)}
    (only : OnlyWords behind NoWord refills) (word : ¬ NoWord (remaining behind refills)) :
    OnlyWords behind NoWord (takeOff refills) := by
  cases refills with
  | nil => exact only
  | cons last earlier =>
      refine ⟨fun taken below => ?_, only.2⟩
      rcases Nat.lt_succ_iff_lt_or_eq.mp below with before | rfl
      · exact only.1 taken before
      · exact word

/-- When a word is no longer than the symbols it stands at the front of, the
number of words is the one that leaves none. -/
theorem wordsAt_eq [DecidablePred NoWord]
    (shrinks : ∀ symbols, ¬ NoWord symbols → (behind symbols).length < symbols.length)
    {taken fuel : Nat} {symbols : List Symbol} (enough : symbols.length ≤ fuel)
    (only : ∀ fewer < taken, ¬ NoWord (behind^[fewer] symbols))
    (rest : NoWord (behind^[taken] symbols)) : wordsAt behind NoWord fuel symbols = taken := by
  induction taken generalizing fuel symbols with
  | zero =>
      cases fuel with
      | zero => rfl
      | succ fuel => exact if_pos rest
  | succ taken inductionHypothesis =>
      have word : ¬ NoWord symbols := only 0 (Nat.succ_pos taken)
      have shorter := shrinks symbols word
      cases fuel with
      | zero => omega
      | succ fuel =>
          have later := @inductionHypothesis fuel (behind symbols) (by omega)
            (fun fewer below => only (fewer + 1) (Nat.succ_lt_succ below)) rest
          rw [wordsAt, if_neg word, later]

/-- When all words and nothing else was taken off, the chunks tell how many. -/
theorem eq_cut [DecidablePred NoWord]
    (shrinks : ∀ symbols, ¬ NoWord symbols → (behind symbols).length < symbols.length)
    {refills : List (Refill Symbol)} (used : UsedUp behind NoWord refills)
    (only : OnlyWords behind NoWord refills) :
    refills = cut behind NoWord (refills.map Refill.chunk) := by
  induction refills with
  | nil => rfl
  | cons last earlier inductionHypothesis =>
      have before := inductionHypothesis used.2 only.2
      have words := wordsAt_eq shrinks (Nat.le_refl _) only.1 used.1
      rw [List.map_cons, cut, ← before, words]

end

/-! ## The rest at the front -/

/-- A range has no element in common with the one of its length at the front
just when it begins behind that one. -/
theorem disjoint_front_iff (source count : Nat) :
    Disjoint (Set.Ico source (source + count)) (Set.Ico 0 count) ↔ count ≤ source := by
  rw [Set.Ico_disjoint_Ico, min_eq_right (Nat.le_add_left count source), Nat.max_zero]

/-- When the rest of a buffer lies behind the words that were taken off, it can
be copied to the front without an overlap just when it is at most half. -/
theorem disjoint_front_iff_atMostHalf {behind : List Symbol → List Symbol}
    {refills : List (Refill Symbol)} {source count : Nat}
    (whole : source + count = (filled behind refills).length)
    (rest : count = (remaining behind refills).length) :
    Disjoint (Set.Ico source (source + count)) (Set.Ico 0 count) ↔ AtMostHalf behind refills := by
  rw [disjoint_front_iff, AtMostHalf, ← whole, ← rest]
  omega

end Hwio.Library
