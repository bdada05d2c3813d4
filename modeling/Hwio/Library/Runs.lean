import Mathlib.Data.List.Basic

/-!
Contract: machines that take inputs one after the other.

Owns the run of a machine on a list of inputs, its parts, relations that every
step keeps, what holds of each step, and machines whose inputs another machine
makes of several of its own.

Does not own any machine.
-/

namespace Hwio.Library

variable {Input Call Output Value State : Type}

/-- The outputs of some inputs, and the state behind the last of them. -/
def runAll (step : Input → State → Output × State) : List Input → State → List Output × State
  | [], state => ([], state)
  | input :: rest, state =>
      let first := step input state
      let behind := runAll step rest first.2
      (first.1 :: behind.1, behind.2)

section Runs

variable (step : Input → State → Output × State)

theorem runAll_append (earlier later : List Input) (state : State) :
    runAll step (earlier ++ later) state =
      ((runAll step earlier state).1 ++ (runAll step later (runAll step earlier state).2).1,
        (runAll step later (runAll step earlier state).2).2) := by
  induction earlier generalizing state with
  | nil => rfl
  | cons input rest before =>
      rw [List.cons_append, runAll, runAll, before]
      rfl

/-- The last input acts on what the ones before it left. -/
theorem runAll_snoc (earlier : List Input) (input : Input) (state : State) :
    (runAll step (earlier ++ [input]) state).2 =
      (step input (runAll step earlier state).2).2 := by
  rw [runAll_append]
  rfl

/-- The outputs of more inputs begin with those of fewer. -/
theorem runAll_prefix {fewer more : List Input} (front : fewer <+: more) (state : State) :
    (runAll step fewer state).1 <+: (runAll step more state).1 := by
  obtain ⟨rest, rfl⟩ := front
  rw [runAll_append]
  exact List.prefix_append _ _

/-- A run is related to its start when the steps are. -/
theorem runAll_related {Related : State → State → Prop} (refl : ∀ state, Related state state)
    (trans : ∀ first second third, Related first second → Related second third →
      Related first third)
    (inputs : List Input) (each : ∀ input ∈ inputs, ∀ state, Related state (step input state).2)
    (state : State) : Related state (runAll step inputs state).2 := by
  induction inputs generalizing state with
  | nil => exact refl state
  | cons input rest before =>
      apply trans state (step input state).2
      · exact each input List.mem_cons_self state
      · exact before (fun other member => each other (List.mem_cons_of_mem input member)) _

/-- The output of each step of a run and the state behind it are good. -/
def Always (Good : Output → State → Prop) : List Input → State → Prop
  | [], _ => True
  | input :: rest, state =>
      Good (step input state).1 (step input state).2 ∧ Always Good rest (step input state).2

/-- An invariant whose steps are good makes a good run. -/
theorem Always.of_invariant {Good : Output → State → Prop} {Invariant : State → Prop}
    (each : ∀ input state, Invariant state →
      Good (step input state).1 (step input state).2 ∧ Invariant (step input state).2)
    (inputs : List Input) {state : State} (holds : Invariant state) :
    Always step Good inputs state := by
  induction inputs generalizing state with
  | nil => trivial
  | cons input rest behind =>
      obtain ⟨good, kept⟩ := each input state holds
      exact ⟨good, behind kept⟩

/-- A machine that does what another one does, on inputs made of its own, has a
good run just when the other one has. -/
theorem always_map_iff {other : Call → Value → Output × Value} {made : Input → Call}
    {Related : State → Value → Prop} {Good : Output → State → Prop}
    {OtherGood : Output → Value → Prop}
    (same : ∀ output state value, Related state value → (Good output state ↔ OtherGood output value))
    (inputs : List Input)
    (each : ∀ input ∈ inputs, ∀ state value, Related state value →
      (step input state).1 = (other (made input) value).1 ∧
        Related (step input state).2 (other (made input) value).2)
    {state : State} {value : Value} (related : Related state value) :
    Always step Good inputs state ↔ Always other OtherGood (inputs.map made) value := by
  induction inputs generalizing state value with
  | nil => exact Iff.rfl
  | cons input rest before =>
      obtain ⟨output, kept⟩ := each input List.mem_cons_self state value related
      have behind := before (fun next member => each next (List.mem_cons_of_mem input member)) kept
      rw [List.map_cons, Always, Always, behind, output, same _ _ _ kept]

end Runs

/-- When the inputs that are made of each call do what the call does, a run of
the calls is one of their inputs. -/
theorem runAll_flatMap {low : Input → State → Output × State} {high : Call → State → Value × State}
    {inputs : Call → List Input} (calls : List Call)
    (each : ∀ call ∈ calls, ∀ state, (runAll low (inputs call) state).2 = (high call state).2)
    (state : State) : (runAll low (calls.flatMap inputs) state).2 = (runAll high calls state).2 := by
  induction calls generalizing state with
  | nil => rfl
  | cons call rest before =>
      rw [List.flatMap_cons, runAll_append, each call List.mem_cons_self, runAll]
      exact before (fun other member => each other (List.mem_cons_of_mem call member)) _

end Hwio.Library
