import Mathlib.Data.List.Forall2

/-!
Contract: acts on two kinds of states that cannot be told apart by their outcomes.

Owns when an act does on related states what another act does, for single acts
and for acts one after another until one fails.

Does not own which states are related.
-/

namespace Hwio.Library

variable {State Other Value Failure : Type}

/-- The same outcome, and related states behind it. -/
structure Agreeing (Same : State → Other → Prop) (ran : Value × State) (other : Value × Other) :
    Prop where
  value : ran.1 = other.1
  state : Same ran.2 other.2

/-- Two acts have the same outcomes in related states, which they keep related. -/
def Respects (Same : State → Other → Prop) (act : State → Value × State)
    (act' : Other → Value × Other) : Prop :=
  ∀ state other, Same state other → Agreeing Same (act state) (act' other)

theorem respects_eq (act : State → Value × State) : Respects Eq act act := by
  rintro state _ rfl
  exact ⟨rfl, rfl⟩

/-- An act that keeps an invariant respects the same states that have it. -/
theorem respects_kept {Invariant : State → Prop} {act : State → Value × State}
    (keeps : ∀ state, Invariant state → Invariant (act state).2) :
    Respects (fun state other => state = other ∧ Invariant state) act act := by
  rintro state _ ⟨rfl, holds⟩
  exact ⟨rfl, rfl, keeps state holds⟩

/-- Outcomes that agree both fail or both return. -/
theorem Agreeing.cases {Same : State → Other → Prop} {ran : Except Failure Value × State}
    {other : Except Failure Value × Other} (agreeing : Agreeing Same ran other) :
    (∃ failure state state', ran = (.error failure, state) ∧ other = (.error failure, state') ∧
        Same state state') ∨
      ∃ value state state', ran = (.ok value, state) ∧ other = (.ok value, state') ∧
        Same state state' := by
  obtain ⟨result, state⟩ := ran
  obtain ⟨result', state'⟩ := other
  obtain ⟨rfl, same⟩ : result = result' ∧ Same state state' := ⟨agreeing.value, agreeing.state⟩
  cases result with
  | error failure => exact Or.inl ⟨failure, state, state', rfl, rfl, same⟩
  | ok value => exact Or.inr ⟨value, state, state', rfl, rfl, same⟩

/-- Acts one after another, until one fails. -/
def chain : List (State → Except Failure Unit × State) → State → Except Failure Unit × State
  | [], state => (.ok (), state)
  | act :: rest, state =>
      match act state with
      | (.error failure, state) => (.error failure, state)
      | (.ok (), state) => chain rest state

theorem chain_respects {Same : State → Other → Prop}
    {acts : List (State → Except Failure Unit × State)}
    {acts' : List (Other → Except Failure Unit × Other)}
    (respect : List.Forall₂ (Respects Same) acts acts') :
    Respects Same (chain acts) (chain acts') := by
  induction respect with
  | nil => exact fun state other same => ⟨rfl, same⟩
  | cons first _ inductionHypothesis =>
      intro state other same
      rw [chain, chain]
      rcases (first state other same).cases with
        ⟨failure, after, after', ran, ran', kept⟩ | ⟨done, after, after', ran, ran', kept⟩
      · rw [ran, ran']
        exact ⟨rfl, kept⟩
      · rw [ran, ran']
        exact inductionHypothesis after after' kept

end Hwio.Library
