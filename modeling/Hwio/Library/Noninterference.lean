import Hwio.Library.Serialization

/-!
Contract: processes on one object that do not affect one another.

Owns when the calls of the others are invisible to a process, and that its
answers are then those that it gets alone.

Does not own what a process can see.
-/

namespace Hwio.Library

variable {Process Call Answer Value State View : Type}

/-! ## Acts that a view tells apart -/

/-- What an act gives, and what it leaves to be seen, is decided by what is seen. -/
def Local (see : State → View) (act : State → Value × State) : Prop :=
  ∀ left right, see left = see right →
    (act left).1 = (act right).1 ∧ see (act left).2 = see (act right).2

/-- An act leaves alone what is seen. -/
def Blind (see : State → View) (act : State → Value × State) : Prop :=
  ∀ state, see (act state).2 = see state

/-! ## Processes apart -/

variable [DecidableEq Process]

/-- The calls of an order that are made by one process. -/
def ownIn (process : Process) (order : List (Process × Call)) : List (Process × Call) :=
  order.filter (·.1 = process)

theorem ownIn_cons_self (process : Process) (call : Call) (rest : List (Process × Call)) :
    ownIn process ((process, call) :: rest) = (process, call) :: ownIn process rest :=
  List.filter_cons_of_pos (decide_eq_true rfl)

theorem ownIn_cons_other {process other : Process} (apart : other ≠ process) (call : Call)
    (rest : List (Process × Call)) : ownIn process ((other, call) :: rest) = ownIn process rest :=
  List.filter_cons_of_neg (mt of_decide_eq_true apart)

theorem ownIn_eq_map (process : Process) (order : List (Process × Call)) :
    ownIn process order = (callsOf process order).map (Prod.mk process) := by
  induction order with
  | nil => rfl
  | cons entry rest inductionHypothesis =>
      obtain ⟨other, call⟩ := entry
      by_cases own : other = process
      · subst own
        rw [ownIn_cons_self, callsOf_cons_self, List.map_cons, inductionHypothesis]
      · rw [ownIn_cons_other own, callsOf_cons_other own, inductionHypothesis]

/-- States that are the same to a process: its allowed calls give the same answers
in them and keep them the same, and those of others change nothing that it sees. -/
structure Separate (step : Process × Call → State → Answer × State) (process : Process)
    (Same : State → State → Prop) (Allowed : Process × Call → Prop) : Prop where
  own : ∀ call, Allowed (process, call) → ∀ left right, Same left right →
    (step (process, call) left).1 = (step (process, call) right).1 ∧
      Same (step (process, call) left).2 (step (process, call) right).2
  others : ∀ entry, entry.1 ≠ process → Allowed entry → ∀ left right, Same left right →
    Same (step entry left).2 right

/-- A process gets the answers that it gets alone. -/
theorem Separate.answersIn_eq {step : Process × Call → State → Answer × State}
    {process : Process} {Same : State → State → Prop} {Allowed : Process × Call → Prop}
    (separate : Separate step process Same Allowed) {order : List (Process × Call)}
    (allowed : ∀ entry ∈ order, Allowed entry) {left right : State} (same : Same left right) :
    answersIn step process order left = (runAll step (ownIn process order) right).1 := by
  induction order generalizing left right with
  | nil => rfl
  | cons entry rest inductionHypothesis =>
      have later : ∀ entry ∈ rest, Allowed entry := fun other member =>
        allowed other (List.mem_cons_of_mem entry member)
      have first := allowed entry List.mem_cons_self
      obtain ⟨other, call⟩ := entry
      rw [← List.singleton_append, answersIn_append]
      by_cases own : other = process
      · subst own
        obtain ⟨answer, kept⟩ := separate.own call first left right same
        have mine : answersIn step other [(other, call)] left = [(step (other, call) left).1] :=
          callsOf_cons_self ..
        rw [mine, List.singleton_append, List.singleton_append, ownIn_cons_self, runAll, answer]
        exact congrArg (_ :: ·) (inductionHypothesis later kept)
      · have none : answersIn step process [(other, call)] left = [] := callsOf_cons_other own ..
        rw [none, List.nil_append, List.singleton_append, ownIn_cons_other own]
        exact inductionHypothesis later (separate.others (other, call) own first left right same)

end Hwio.Library
