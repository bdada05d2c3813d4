import Mathlib.Data.List.Basic

/-!
Contract: histories in which every event is justified by the events before it,
or answered by the event behind it.

Owns the two predicates and the rules by which they are kept when a history
grows.

Does not own any kind of event.
-/

namespace Hwio.Library

variable {Event : Type} {Because : List Event → Event → Prop}

/-- Every event of the history has its reason in the events before it. -/
def Justified (Because : List Event → Event → Prop) (history : List Event) : Prop :=
  ∀ front event back, history = front ++ event :: back → Because front event

theorem justified_iff_getElem (history : List Event) :
    Justified Because history ↔
      ∀ index : Fin history.length, Because (history.take index) history[index] := by
  constructor
  · intro justified index
    apply justified (history.take index) history[index] (history.drop (index + 1))
    rw [Fin.getElem_fin, List.getElem_cons_drop, List.take_append_drop]
  · intro every front event back split
    subst split
    have here := every ⟨front.length, by simp⟩
    simpa using here

instance [∀ front event, Decidable (Because front event)] (history : List Event) :
    Decidable (Justified Because history) :=
  decidable_of_iff _ (justified_iff_getElem history).symm

theorem justified_nil : Justified Because [] := by
  intro front event back split
  cases front <;> cases split

theorem justified_singleton {event : Event} (because : Because [] event) :
    Justified Because [event] := by
  intro front other back split
  cases front with
  | nil =>
      cases split
      exact because
  | cons head tail => cases tail <;> cases split

/-- An event of a joined history lies in the earlier part or in the later one. -/
theorem append_eq_append_cons {earlier later front back : List Event} {event : Event}
    (split : earlier ++ later = front ++ event :: back) :
    (∃ rest, earlier = front ++ event :: rest ∧ back = rest ++ later) ∨
      ∃ rest, front = earlier ++ rest ∧ later = rest ++ event :: back := by
  rcases List.append_eq_append_iff.mp split with ⟨rest, front', later'⟩ | ⟨rest, earlier', behind⟩
  · exact Or.inr ⟨rest, front', later'⟩
  · cases rest with
    | nil =>
        rw [List.append_nil] at earlier'
        exact Or.inr ⟨[], by rw [List.append_nil, earlier'], behind.symm⟩
    | cons head tail =>
        simp only [List.cons_append, List.cons.injEq] at behind
        obtain ⟨rfl, rfl⟩ := behind
        exact Or.inl ⟨tail, earlier', rfl⟩

theorem justified_append_iff (earlier later : List Event) :
    Justified Because (earlier ++ later) ↔
      Justified Because earlier ∧
        ∀ front event back, later = front ++ event :: back → Because (earlier ++ front) event := by
  constructor
  · intro justified
    refine ⟨fun front event back split => ?_, fun front event back split => ?_⟩
    · apply justified front event (back ++ later)
      rw [split, List.append_assoc, List.cons_append]
    · apply justified (earlier ++ front) event back
      rw [split, List.append_assoc]
  · rintro ⟨old, new⟩ front event back split
    rcases append_eq_append_cons split with ⟨rest, earlier', _⟩ | ⟨rest, front', later'⟩
    · exact old front event rest earlier'
    · rw [front']
      exact new rest event back later'

/-- When reasons stay reasons, events whose reasons lie in the history may be
added in any number. -/
theorem Justified.append {earlier later : List Event}
    (monotone : ∀ front more event, Because front event → Because (front ++ more) event)
    (justified : Justified Because earlier) (new : ∀ event ∈ later, Because earlier event) :
    Justified Because (earlier ++ later) := by
  refine (justified_append_iff earlier later).mpr ⟨justified, fun front event back split => ?_⟩
  apply monotone
  apply new
  rw [split]
  simp

/-- Events that need no reason may be added. -/
theorem Justified.append_free {earlier later : List Event} (justified : Justified Because earlier)
    (free : ∀ event ∈ later, ∀ front, Because front event) :
    Justified Because (earlier ++ later) := by
  refine (justified_append_iff earlier later).mpr ⟨justified, fun front event back split => ?_⟩
  apply free
  rw [split]
  exact List.mem_append_right _ List.mem_cons_self

/-- An event may be added with its reason. -/
theorem Justified.snoc {earlier : List Event} {event : Event} (justified : Justified Because earlier)
    (because : Because earlier event) : Justified Because (earlier ++ [event]) := by
  refine (justified_append_iff earlier [event]).mpr ⟨justified, fun front other back split => ?_⟩
  obtain ⟨rfl, rest⟩ | ⟨_, none⟩ := List.singleton_eq_append_iff.mp split
  · obtain ⟨rfl, _⟩ := List.cons.inj rest
    rw [List.append_nil]
    exact because
  · cases none

theorem Justified.append_pair {earlier : List Event} {first second : Event}
    (justified : Justified Because earlier) (because : Because earlier first)
    (because' : Because (earlier ++ [first]) second) :
    Justified Because (earlier ++ [first, second]) := by
  have both := (justified.snoc because).snoc because'
  rw [List.append_assoc, List.singleton_append] at both
  exact both

/-! ## Events that are followed up -/

/-- Every event of the history has its place between the events before it and
those behind it. -/
def Explained (Between : List Event → Event → List Event → Prop) (history : List Event) : Prop :=
  ∀ front event back, history = front ++ event :: back → Between front event back

theorem explained_nil {Between : List Event → Event → List Event → Prop} :
    Explained Between [] := by
  intro front event back split
  cases front <;> cases split

/-- When more events behind do no harm, events may be added that have their
places behind the history. -/
theorem Explained.append {Between : List Event → Event → List Event → Prop}
    {earlier later : List Event}
    (stays : ∀ front event back more, Between front event back →
      Between front event (back ++ more))
    (old : Explained Between earlier)
    (new : ∀ front event back, later = front ++ event :: back →
      Between (earlier ++ front) event back) : Explained Between (earlier ++ later) := by
  intro front event back split
  rcases append_eq_append_cons split with ⟨rest, earlier', rfl⟩ | ⟨rest, front', later'⟩
  · exact stays front event rest later (old front event rest earlier')
  · rw [front']
    exact new rest event back later'

/-- What a follower of an event may be, when it needs one. -/
def Follows (Needs : Event → Event → Prop) (Last : Event → Prop) (_ : List Event) (event : Event)
    (back : List Event) : Prop :=
  Last event ∨ ∃ next rest, back = next :: rest ∧ Needs event next

/-- Every event has a next one that it accepts, unless it accepts to be the last. -/
abbrev Followed (Needs : Event → Event → Prop) (Last : Event → Prop) (history : List Event) :
    Prop :=
  Explained (Follows Needs Last) history

variable {Needs : Event → Event → Prop} {Last : Event → Prop}

theorem Follows.append {front back more : List Event} {event : Event}
    (follows : Follows Needs Last front event back) :
    Follows Needs Last front event (back ++ more) := by
  rcases follows with last | ⟨next, rest, rfl, needs⟩
  · exact Or.inl last
  · exact Or.inr ⟨next, rest ++ more, rfl, needs⟩

/-- Events may be added that accept to be the last. -/
theorem Explained.append_last {earlier later : List Event}
    (old : Followed Needs Last earlier) (last : ∀ event ∈ later, Last event) :
    Followed Needs Last (earlier ++ later) := by
  apply Explained.append
  · exact fun front event back more follows => follows.append
  · exact old
  · intro front event back split
    left
    apply last
    rw [split]
    exact List.mem_append_right _ List.mem_cons_self

/-- An event may be added with the one it needs. -/
theorem Explained.append_pair {earlier : List Event} {first second : Event}
    (old : Followed Needs Last earlier) (needs : Needs first second) (last : Last second) :
    Followed Needs Last (earlier ++ [first, second]) := by
  apply Explained.append
  · exact fun front event back more follows => follows.append
  · exact old
  · intro front event back split
    rcases List.cons_eq_append_iff.mp split with ⟨rfl, same⟩ | ⟨tail, rfl, rest⟩
    · cases same
      exact Or.inr ⟨second, [], rfl, needs⟩
    · rcases List.cons_eq_append_iff.mp rest with ⟨rfl, same⟩ | ⟨more, rfl, none⟩
      · cases same
        exact Or.inl last
      · simp at none

end Hwio.Library
