import Mathlib.Data.List.AList
import Mathlib.Data.List.Induction

/-!
Contract: a registry that is kept twice, as a map whose entries are overwritten
and as a list that only grows and is searched from the front.

Owns the registry of a history of registrations, and when the two always agree.

Does not own what is registered.
-/

namespace Hwio.Library

variable {Key Value : Type} [DecidableEq Key]

/-- The map, and the keys and values in the order of their registration. -/
structure Registry (Key Value : Type) where
  latest : AList (fun _ : Key => Value)
  keys : List Key
  values : List Value

namespace Registry

def register (entry : Key × Value) (registry : Registry Key Value) : Registry Key Value where
  latest := registry.latest.insert entry.1 entry.2
  keys := registry.keys ++ [entry.1]
  values := registry.values ++ [entry.2]

/-- The registry after a history of registrations. -/
def registered (history : List (Key × Value)) : Registry Key Value :=
  history.foldl (fun registry entry => registry.register entry) ⟨∅, [], []⟩

/-- The first place of a key. -/
def position (registry : Registry Key Value) (key : Key) : Option Nat :=
  registry.keys.findIdx? fun other => key = other

@[simp] theorem registered_append_singleton (history : List (Key × Value)) (entry : Key × Value) :
    registered (history ++ [entry]) = (registered history).register entry :=
  List.foldl_concat ..

theorem registered_keys (history : List (Key × Value)) :
    (registered history).keys = history.map Prod.fst := by
  induction history using List.reverseRecOn with
  | nil => rfl
  | append_singleton history entry inductionHypothesis =>
      rw [registered_append_singleton, register, inductionHypothesis, List.map_append,
        List.map_singleton]

theorem registered_values (history : List (Key × Value)) :
    (registered history).values = history.map Prod.snd := by
  induction history using List.reverseRecOn with
  | nil => rfl
  | append_singleton history entry inductionHypothesis =>
      rw [registered_append_singleton, register, inductionHypothesis, List.map_append,
        List.map_singleton]

/-- The map holds what was registered last. -/
theorem latest_append_self (history : List (Key × Value)) (key : Key) (value : Value) :
    (registered (history ++ [(key, value)])).latest.lookup key = some value := by
  rw [registered_append_singleton, register, AList.lookup_insert]

/-- The map only holds what was registered. -/
theorem mem_of_latest {history : List (Key × Value)} {key : Key} {value : Value}
    (found : (registered history).latest.lookup key = some value) : (key, value) ∈ history := by
  induction history using List.reverseRecOn with
  | nil => cases found
  | append_singleton history entry inductionHypothesis =>
      rw [registered_append_singleton, register] at found
      by_cases same : key = entry.1
      · rw [same, AList.lookup_insert, Option.some.injEq] at found
        rw [same, ← found]
        exact List.mem_append_right _ (List.mem_singleton.mpr rfl)
      · rw [AList.lookup_insert_ne same] at found
        exact List.mem_append_left _ (inductionHypothesis found)

/-- The map holds every registered key. -/
theorem latest_isSome {history : List (Key × Value)} {key : Key}
    (registered' : key ∈ history.map Prod.fst) :
    ∃ value, (registered history).latest.lookup key = some value := by
  induction history using List.reverseRecOn with
  | nil => cases registered'
  | append_singleton history entry inductionHypothesis =>
      rw [registered_append_singleton, register]
      by_cases same : key = entry.1
      · rw [same]
        exact ⟨entry.2, AList.lookup_insert _⟩
      · rw [AList.lookup_insert_ne same]
        apply inductionHypothesis
        rw [List.map_append, List.mem_append] at registered'
        rcases registered' with old | new
        · exact old
        · exact absurd (List.mem_singleton.mp new) same

theorem latest_eq_none {history : List (Key × Value)} {key : Key}
    (missing : key ∉ history.map Prod.fst) : (registered history).latest.lookup key = none := by
  cases found : (registered history).latest.lookup key with
  | none => rfl
  | some value => exact absurd (List.mem_map_of_mem (mem_of_latest found)) missing

theorem position_eq_none_iff (history : List (Key × Value)) (key : Key) :
    (registered history).position key = none ↔ key ∉ history.map Prod.fst := by
  rw [position, registered_keys, List.findIdx?_eq_none_iff]
  simp only [decide_eq_false_iff_not]
  constructor
  · intro others member
    exact others key member rfl
  · intro missing other member same
    exact missing (same ▸ member)

/-- The first place of a key holds one of its values, also after later
registrations. -/
theorem position_of_mem {history : List (Key × Value)} {key : Key}
    (registered' : key ∈ history.map Prod.fst) :
    ∃ index value, (registered history).position key = some index ∧ (key, value) ∈ history ∧
      ∀ later, (registered (history ++ later)).position key = some index ∧
        (registered (history ++ later)).values[index]? = some value := by
  cases found : (registered history).position key with
  | none => exact absurd registered' ((position_eq_none_iff history key).mp found)
  | some index =>
      have place := found
      rw [position, registered_keys, List.findIdx?_eq_some_iff_getElem] at place
      obtain ⟨inside, here, before⟩ := place
      rw [List.length_map] at inside
      simp only [List.getElem_map, decide_eq_true_eq] at here before
      refine ⟨index, history[index].2, rfl, ?_, fun later => ⟨?_, ?_⟩⟩
      · rw [here]
        exact List.getElem_mem inside
      · rw [position, registered_keys] at found ⊢
        rw [List.map_append, List.findIdx?_append, found]
        rfl
      · rw [registered_values, List.getElem?_map, List.getElem?_append_left inside,
          List.getElem?_eq_getElem inside]
        rfl

/-- The place of a key selects, when it is asked for and ever after, what the
map holds. -/
def Agrees (history : List (Key × Value)) (key : Key) : Prop :=
  ∀ earlier later, history = earlier ++ later → key ∈ earlier.map Prod.fst →
    ∃ index value, (registered earlier).position key = some index ∧
      (registered earlier).values[index]? = some value ∧
      (registered earlier).latest.lookup key = some value ∧
      (registered history).values[index]? = some value ∧
      (registered history).latest.lookup key = some value

/-- Map and list always agree on a key just when it is always registered with
the same value. -/
theorem agrees_iff (history : List (Key × Value)) (key : Key) :
    Agrees history key ↔
      ∀ first second, (key, first) ∈ history → (key, second) ∈ history → first = second := by
  constructor
  · intro agrees
    -- every value is the one at the first place
    have firsts : ∀ value, (key, value) ∈ history →
        ∃ index, (registered history).position key = some index ∧
          (registered history).values[index]? = some value := by
      intro value member
      obtain ⟨earlier, later, split⟩ := List.append_of_mem member
      have grown : history = (earlier ++ [(key, value)]) ++ later := by
        rw [split, List.append_assoc, List.singleton_append]
      have registered' : key ∈ (earlier ++ [(key, value)]).map Prod.fst := by simp
      obtain ⟨index, other, place, _, latest, now, _⟩ := agrees _ later grown registered'
      rw [latest_append_self] at latest
      obtain ⟨index', _, place', _, stays⟩ := position_of_mem registered'
      refine ⟨index, ?_, ?_⟩
      · rw [grown, Option.some.inj (place.symm.trans place')]
        exact (stays later).1
      · rw [now, latest]
    intro first second member member'
    obtain ⟨index, place, here⟩ := firsts first member
    obtain ⟨index', place', here'⟩ := firsts second member'
    rw [Option.some.inj (place.symm.trans place'), here'] at here
    exact (Option.some.inj here).symm
  · intro same earlier later split registered'
    obtain ⟨index, value, place, member, stays⟩ := position_of_mem registered'
    obtain ⟨latest, found⟩ := latest_isSome registered'
    have all : ∀ other, (registered history).latest.lookup key = some other → other = value := by
      intro other found
      refine same other value (mem_of_latest found) ?_
      rw [split]
      exact List.mem_append_left _ member
    obtain ⟨last, found'⟩ := @latest_isSome _ _ _ history key (by
      rw [split, List.map_append]
      exact List.mem_append_left _ registered')
    have earlierSame : latest = value := by
      refine same latest value ?_ ?_
      · rw [split]
        exact List.mem_append_left _ (mem_of_latest found)
      · rw [split]
        exact List.mem_append_left _ member
    have now := stays []
    rw [List.append_nil] at now
    refine ⟨index, value, place, now.2, earlierSame ▸ found, ?_, (all last found') ▸ found'⟩
    rw [split]
    exact (stays later).2

end Registry

end Hwio.Library
