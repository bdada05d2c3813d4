import Mathlib.Data.List.Forall2

/-!
Contract: iterators that call themselves until they have an item.

Owns one round of an iterator, its rounds up to the next item, all its items,
the states that it reaches, the rules by which its items are the ones that are
pending in its state or have a property, how it ends, rounds that are noted, and
lists that are gone through whole.

Does not own any state to iterate over.
-/

namespace Hwio.Library

variable {State Item Failure : Type}

/-- What one round of an iterator does. -/
inductive Round (State Item Failure : Type) where
  | again (later : State)
  | yields (item : Item) (later : State)
  | ends (later : State)
  | fails (failure : Failure)

/-- The rounds up to the next item. -/
def next (round : State → Round State Item Failure) :
    Nat → State → Option (Except Failure (Option Item × State))
  | 0, _ => none
  | fuel + 1, state =>
      match round state with
      | .again later => next round fuel later
      | .yields item later => some (.ok (some item, later))
      | .ends later => some (.ok (none, later))
      | .fails failure => some (.error failure)

/-- All items, and the state in which there are no more. -/
def drain (round : State → Round State Item Failure) :
    Nat → State → Option (Except Failure (List Item × State))
  | 0, _ => none
  | fuel + 1, state =>
      match next round (fuel + 1) state with
      | none => none
      | some (.error failure) => some (.error failure)
      | some (.ok (none, last)) => some (.ok ([], last))
      | some (.ok (some item, later)) =>
          (drain round fuel later).map fun rest =>
            rest.map fun (items, last) => (item :: items, last)

theorem next_succ {round : State → Round State Item Failure} {fuel : Nat} {state : State}
    {result : Except Failure (Option Item × State)} (returned : next round fuel state = some result) :
    next round (fuel + 1) state = some result := by
  induction fuel generalizing state with
  | zero => cases returned
  | succ fuel before =>
      rw [next] at returned ⊢
      cases calls : round state with
      | again later =>
          rw [calls] at returned
          exact before returned
      | yields item later =>
          rw [calls] at returned
          exact returned
      | ends later =>
          rw [calls] at returned
          exact returned
      | fails failure =>
          rw [calls] at returned
          exact returned

theorem drain_succ {round : State → Round State Item Failure} {fuel : Nat} {state : State}
    {result : Except Failure (List Item × State)} (drained : drain round fuel state = some result) :
    drain round (fuel + 1) state = some result := by
  induction fuel generalizing state result with
  | zero => cases drained
  | succ fuel before =>
      rw [drain] at drained ⊢
      rcases returned : next round (fuel + 1) state with _ | failure | ⟨_ | item, later⟩
      · rw [returned] at drained
        cases drained
      · rw [returned] at drained
        rw [next_succ returned]
        exact drained
      · rw [returned] at drained
        rw [next_succ returned]
        exact drained
      · rw [returned] at drained
        rw [next_succ returned]
        have ⟨rest, still, same⟩ := Option.map_eq_some_iff.mp drained
        exact Option.map_eq_some_iff.mpr ⟨rest, before still, same⟩

/-- More rounds than are needed do not change the result. -/
theorem drain_le {round : State → Round State Item Failure} {fuel more : Nat} (enough : fuel ≤ more)
    {state : State} {result : Except Failure (List Item × State)}
    (drained : drain round fuel state = some result) : drain round more state = some result := by
  induction enough with
  | refl => exact drained
  | step _ before => exact drain_succ before

/-- The states that an iterator is in between its rounds. -/
inductive Visited (round : State → Round State Item Failure) (start : State) : State → Prop where
  | start : Visited round start start
  | again {state later : State} (before : Visited round start state)
      (calls : round state = .again later) : Visited round start later
  | yields {state later : State} {item : Item} (before : Visited round start state)
      (returns : round state = .yields item later) : Visited round start later
  | ends {state later : State} (before : Visited round start state)
      (returns : round state = .ends later) : Visited round start later

/-- A round keeps an invariant, does some of the work and takes its item from
the pending ones. -/
structure Enumerates (round : State → Round State Item Failure) (Invariant : State → Prop)
    (pending : State → List Item) (work : State → Nat) (Last : State → Prop) : Prop where
  again : ∀ {state later : State}, Invariant state → round state = .again later →
    Invariant later ∧ pending later = pending state ∧ work later < work state
  yields : ∀ {state later : State} {item : Item}, Invariant state →
    round state = .yields item later →
      Invariant later ∧ pending state = item :: pending later ∧ work later < work state
  ends : ∀ {state later : State}, Invariant state → round state = .ends later →
    Invariant later ∧ pending state = [] ∧ Last later
  fails : ∀ {state : State} {failure : Failure}, Invariant state → round state ≠ .fails failure

namespace Enumerates

variable {round : State → Round State Item Failure} {Invariant : State → Prop}
  {pending : State → List Item} {work : State → Nat} {Last : State → Prop}

/-- The next item is the first pending one. -/
theorem next_cases (enumerates : Enumerates round Invariant pending work Last) :
    ∀ {fuel : Nat} {state : State}, Invariant state → work state < fuel →
      (∃ last, next round fuel state = some (.ok (none, last)) ∧ pending state = [] ∧ Last last) ∨
      ∃ item later, next round fuel state = some (.ok (some item, later)) ∧
        pending state = item :: pending later ∧ Invariant later ∧ work later < work state
  | 0, state, _, enough => by omega
  | fuel + 1, state, holds, enough => by
      cases calls : round state with
      | again later =>
          have ⟨kept, same, less⟩ := enumerates.again holds calls
          have unfolded : next round (fuel + 1) state = next round fuel later := by
            rw [next, calls]
          rw [unfolded, ← same]
          rcases enumerates.next_cases kept (show work later < fuel by omega) with
            finished | ⟨item, after, returned, first, still, fewer⟩
          · exact Or.inl finished
          · exact Or.inr ⟨item, after, returned, first, still, by omega⟩
      | yields item later =>
          have ⟨kept, first, less⟩ := enumerates.yields holds calls
          exact Or.inr ⟨item, later, by rw [next, calls], first, kept, less⟩
      | ends later =>
          have ⟨_, nothing, last⟩ := enumerates.ends holds calls
          exact Or.inl ⟨later, by rw [next, calls], nothing, last⟩
      | fails failure => exact absurd calls (enumerates.fails holds)

/-- An iterator gives exactly the pending items and comes to an end. -/
theorem drain_eq (enumerates : Enumerates round Invariant pending work Last) :
    ∀ {fuel : Nat} {state : State}, Invariant state → work state < fuel →
      ∃ last, drain round fuel state = some (.ok (pending state, last)) ∧ Last last
  | 0, state, _, enough => by omega
  | fuel + 1, state, holds, enough => by
      rcases enumerates.next_cases holds enough with
        ⟨last, returned, nothing, final⟩ | ⟨item, later, returned, first, kept, less⟩
      · refine ⟨last, ?_, final⟩
        rw [drain, returned, nothing]
      · have ⟨last, rest, final⟩ := enumerates.drain_eq kept (show work later < fuel by omega)
        refine ⟨last, ?_, final⟩
        rw [drain, returned, first]
        show (drain round fuel later).map _ = _
        rw [rest]
        rfl

/-- The invariant holds in every state of an iteration. -/
theorem visited (enumerates : Enumerates round Invariant pending work Last) {start state : State}
    (initial : Invariant start) (visit : Visited round start state) : Invariant state := by
  induction visit with
  | start => exact initial
  | again _ calls before => exact (enumerates.again before calls).1
  | yields _ returns before => exact (enumerates.yields before returns).1
  | ends _ returns before => exact (enumerates.ends before returns).1

end Enumerates

/-! ## Iterations that come to their end -/

section Passed

variable {round : State → Round State Item Failure} {Invariant : State → Prop}

/-- An iteration that comes to its end has passed everything that was pending. -/
theorem next_passes {Thing : Type} {pending : State → List Thing} {Fine : Thing → Prop}
    (again : ∀ {state later : State}, Invariant state → round state = .again later →
      Invariant later ∧ ∀ thing ∈ pending state, Fine thing ∨ thing ∈ pending later)
    (yields : ∀ {state later : State} {item : Item}, Invariant state →
      round state = .yields item later →
        Invariant later ∧ ∀ thing ∈ pending state, Fine thing ∨ thing ∈ pending later)
    (ends : ∀ {state later : State}, Invariant state → round state = .ends later →
      pending state = [])
    {fuel : Nat} {state later : State} {item : Option Item} (holds : Invariant state)
    (returned : next round fuel state = some (.ok (item, later))) :
    (item.isSome → Invariant later) ∧
      ∀ thing ∈ pending state, Fine thing ∨ item.isSome ∧ thing ∈ pending later := by
  induction fuel generalizing state with
  | zero => cases returned
  | succ fuel before =>
      rw [next] at returned
      cases calls : round state with
      | again between =>
          rw [calls] at returned
          have ⟨kept, passed⟩ := again holds calls
          have ⟨later, rest⟩ := before kept returned
          exact ⟨later, fun thing member => (passed thing member).elim Or.inl (rest thing)⟩
      | yields first rest =>
          rw [calls] at returned
          cases returned
          have ⟨kept, passed⟩ := yields holds calls
          exact ⟨fun _ => kept, fun thing member => (passed thing member).imp_right fun still =>
            ⟨rfl, still⟩⟩
      | ends last =>
          rw [calls] at returned
          cases returned
          rw [ends holds calls]
          exact ⟨nofun, nofun⟩
      | fails failure =>
          rw [calls] at returned
          cases returned

theorem drain_passes {Thing : Type} {pending : State → List Thing} {Fine : Thing → Prop}
    (again : ∀ {state later : State}, Invariant state → round state = .again later →
      Invariant later ∧ ∀ thing ∈ pending state, Fine thing ∨ thing ∈ pending later)
    (yields : ∀ {state later : State} {item : Item}, Invariant state →
      round state = .yields item later →
        Invariant later ∧ ∀ thing ∈ pending state, Fine thing ∨ thing ∈ pending later)
    (ends : ∀ {state later : State}, Invariant state → round state = .ends later →
      pending state = [])
    {fuel : Nat} {state last : State} {items : List Item} (holds : Invariant state)
    (drained : drain round fuel state = some (.ok (items, last))) :
    ∀ thing ∈ pending state, Fine thing := by
  induction fuel generalizing state items with
  | zero => cases drained
  | succ fuel before =>
      rw [drain] at drained
      rcases returned : next round (fuel + 1) state with _ | failure | ⟨_ | first, later⟩
      · rw [returned] at drained
        cases drained
      · rw [returned] at drained
        cases drained
      · have ⟨_, passed⟩ := next_passes again yields ends holds returned
        exact fun thing member => (passed thing member).resolve_right fun still => nomatch still.1
      · rw [returned] at drained
        have ⟨kept, passed⟩ := next_passes again yields ends holds returned
        simp only at drained
        rcases rest : drain round fuel later with _ | failure | ⟨others, final⟩
        · rw [rest] at drained
          cases drained
        · rw [rest] at drained
          cases drained
        · rw [rest] at drained
          cases drained
          exact fun thing member => (passed thing member).elim id fun still =>
            before (kept rfl) rest thing still.2

end Passed

/-! ## Properties of the items -/

section Items

variable {round : State → Round State Item Failure} {Good : Item → Prop}
  (each : ∀ {state later : State} {item : Item}, round state = .yields item later → Good item)

include each

theorem next_good {fuel : Nat} {state later : State} {item : Item}
    (returned : next round fuel state = some (.ok (some item, later))) : Good item := by
  induction fuel generalizing state with
  | zero => cases returned
  | succ fuel before =>
      rw [next] at returned
      cases calls : round state with
      | again between =>
          rw [calls] at returned
          exact before returned
      | yields first rest =>
          rw [calls] at returned
          cases returned
          exact each calls
      | ends last =>
          rw [calls] at returned
          cases returned
      | fails failure =>
          rw [calls] at returned
          cases returned

/-- All items are as good as each round makes them. -/
theorem drain_good {fuel : Nat} {state last : State} {items : List Item}
    (drained : drain round fuel state = some (.ok (items, last))) : ∀ item ∈ items, Good item := by
  induction fuel generalizing state items with
  | zero => cases drained
  | succ fuel before =>
      rw [drain] at drained
      rcases returned : next round (fuel + 1) state with _ | failure | ⟨_ | first, later⟩
      · rw [returned] at drained
        cases drained
      · rw [returned] at drained
        cases drained
      · rw [returned] at drained
        cases drained
        exact List.forall_mem_nil _
      · rw [returned] at drained
        simp only at drained
        rcases rest : drain round fuel later with _ | failure | ⟨others, final⟩
        · rw [rest] at drained
          cases drained
        · rw [rest] at drained
          cases drained
        · rw [rest] at drained
          cases drained
          exact List.forall_mem_cons.mpr ⟨next_good each returned, before rest⟩

end Items

/-! ## How iterations end -/

section Ends

variable {round : State → Round State Item Failure} {Invariant Done : State → Prop}
  {Broken : Failure → Prop}
  (again : ∀ {state later : State}, Invariant state → round state = .again later → Invariant later)
  (yields : ∀ {state later : State} {item : Item}, Invariant state →
    round state = .yields item later → Invariant later)
  (ends : ∀ {state later : State}, Invariant state → round state = .ends later → Done later)
  (fails : ∀ {state : State} {failure : Failure}, Invariant state →
    round state = .fails failure → Broken failure)

include again yields ends fails

theorem next_ends {fuel : Nat} {state : State} (holds : Invariant state) :
    (∀ item later, next round fuel state = some (.ok (some item, later)) → Invariant later) ∧
      (∀ last, next round fuel state = some (.ok (none, last)) → Done last) ∧
      ∀ failure, next round fuel state = some (.error failure) → Broken failure := by
  induction fuel generalizing state with
  | zero => exact ⟨nofun, nofun, nofun⟩
  | succ fuel before =>
      rw [next]
      cases calls : round state with
      | again later => exact before (again holds calls)
      | yields item later =>
          refine ⟨fun _ _ same => ?_, nofun, nofun⟩
          cases same
          exact yields holds calls
      | ends later =>
          refine ⟨nofun, fun _ same => ?_, nofun⟩
          cases same
          exact ends holds calls
      | fails failure =>
          refine ⟨nofun, nofun, fun _ same => ?_⟩
          cases same
          exact fails holds calls

/-- What every round keeps decides how an iteration ends, and how it fails. -/
theorem drain_ends {fuel : Nat} {state : State} (holds : Invariant state) :
    (∀ items last, drain round fuel state = some (.ok (items, last)) → Done last) ∧
      ∀ failure, drain round fuel state = some (.error failure) → Broken failure := by
  induction fuel generalizing state with
  | zero => exact ⟨nofun, nofun⟩
  | succ fuel before =>
      have ⟨found, finished, failed⟩ :=
        @next_ends _ _ _ round Invariant Done Broken again yields ends fails (fuel + 1) state holds
      rw [drain]
      rcases returned : next round (fuel + 1) state with _ | failure | ⟨_ | item, later⟩
      · exact ⟨nofun, nofun⟩
      · refine ⟨nofun, fun _ same => ?_⟩
        cases same
        exact failed failure returned
      · refine ⟨fun _ _ same => ?_, nofun⟩
        cases same
        exact finished later returned
      · obtain ⟨finishes, breaks⟩ := before (found item later returned)
        simp only
        rcases rest : drain round fuel later with _ | failure | ⟨items, last⟩
        · exact ⟨fun _ _ same => (nomatch same), fun _ same => (nomatch same)⟩
        · refine ⟨fun _ _ same => (nomatch same), fun _ same => ?_⟩
          cases same
          exact breaks failure rest
        · refine ⟨fun _ _ same => ?_, fun _ same => (nomatch same)⟩
          cases same
          exact finishes items last rest

end Ends

section Returns

variable {round : State → Round State Item Failure} {Invariant : State → Prop} {work : State → Nat}
  (again : ∀ {state later : State}, Invariant state → round state = .again later →
    Invariant later ∧ work later < work state)
  (yields : ∀ {state later : State} {item : Item}, Invariant state →
    round state = .yields item later → Invariant later ∧ work later < work state)

include again yields

theorem next_returns {fuel : Nat} {state : State} (holds : Invariant state)
    (enough : work state < fuel) : ∃ result, next round fuel state = some result ∧
      ∀ item later, result = .ok (some item, later) →
        Invariant later ∧ work later < work state := by
  induction fuel generalizing state with
  | zero => omega
  | succ fuel before =>
      rw [next]
      cases calls : round state with
      | again later =>
          obtain ⟨kept, less⟩ := again holds calls
          obtain ⟨result, returned, rest⟩ := before kept (by omega)
          exact ⟨result, returned, fun item last same =>
            ⟨(rest item last same).1, Nat.lt_trans (rest item last same).2 less⟩⟩
      | yields item later =>
          refine ⟨_, rfl, fun _ _ same => ?_⟩
          cases same
          exact yields holds calls
      | ends later => exact ⟨_, rfl, fun _ _ same => nomatch same⟩
      | fails failure => exact ⟨_, rfl, fun _ _ same => nomatch same⟩

/-- An iteration whose rounds each do some of the work comes to an end, or fails. -/
theorem drain_returns {fuel : Nat} {state : State} (holds : Invariant state)
    (enough : work state < fuel) : (drain round fuel state).isSome := by
  induction fuel generalizing state with
  | zero => omega
  | succ fuel before =>
      obtain ⟨result, returned, rest⟩ :=
        @next_returns _ _ _ round Invariant work again yields (fuel + 1) state holds enough
      rw [drain, returned]
      rcases result with failure | ⟨_ | item, later⟩
      · rfl
      · rfl
      · obtain ⟨kept, less⟩ := rest item later rfl
        simp only [Option.isSome_map]
        exact before kept (by omega)

end Returns

/-! ## Rounds that are noted -/

section Noted

variable {Event : Type}

/-- A round that notes what it does, also when it fails. -/
def noted (note : State → List Event) (round : State → Round State Item Failure) :
    State × List Event → Round (State × List Event) Item (Failure × List Event) :=
  fun (state, log) =>
    match round state with
    | .again later => .again (later, log ++ note state)
    | .yields item later => .yields item (later, log ++ note state)
    | .ends later => .ends (later, log ++ note state)
    | .fails failure => .fails (failure, log ++ note state)

/-- A result without what was noted. -/
def unnoted {Value : Type} (result : Except (Failure × List Event) (Value × State × List Event)) :
    Except Failure (Value × State) :=
  (result.mapError Prod.fst).map fun (value, state, _) => (value, state)

theorem next_noted (note : State → List Event) (round : State → Round State Item Failure)
    (fuel : Nat) (state : State) (log : List Event) :
    (next (noted note round) fuel (state, log)).map unnoted = next round fuel state := by
  induction fuel generalizing state log with
  | zero => rfl
  | succ fuel before =>
      rw [next, next, noted]
      cases round state with
      | again later => exact before later _
      | yields item later => rfl
      | ends later => rfl
      | fails failure => rfl

/-- Noting what is done changes nothing else. -/
theorem drain_noted (note : State → List Event) (round : State → Round State Item Failure)
    (fuel : Nat) (state : State) (log : List Event) :
    (drain (noted note round) fuel (state, log)).map unnoted = drain round fuel state := by
  induction fuel generalizing state log with
  | zero => rfl
  | succ fuel before =>
      have same := next_noted note round (fuel + 1) state log
      rw [drain, drain, ← same]
      rcases next (noted note round) (fuel + 1) (state, log) with
        _ | ⟨failure, log⟩ | ⟨_ | item, later, log⟩
      · rfl
      · rfl
      · rfl
      · simp only [Option.map_some, unnoted, Except.mapError, Except.map]
        rw [← before later log]
        rcases drain (noted note round) fuel (later, log) with _ | failure | ⟨items, last⟩
        · rfl
        · rfl
        · rfl

/-- What every round keeps of its state and of what was noted decides what was noted
in the end. -/
theorem drain_noted_ends {note : State → List Event} {round : State → Round State Item Failure}
    {Invariant Done : State → List Event → Prop} {Broken : Failure → List Event → Prop}
    (again : ∀ {state later : State} {log : List Event}, Invariant state log →
      round state = .again later → Invariant later (log ++ note state))
    (yields : ∀ {state later : State} {item : Item} {log : List Event}, Invariant state log →
      round state = .yields item later → Invariant later (log ++ note state))
    (ends : ∀ {state later : State} {log : List Event}, Invariant state log →
      round state = .ends later → Done later (log ++ note state))
    (fails : ∀ {state : State} {failure : Failure} {log : List Event}, Invariant state log →
      round state = .fails failure → Broken failure (log ++ note state))
    {fuel : Nat} {state : State} {log : List Event} (holds : Invariant state log) :
    (∀ items last log', drain (noted note round) fuel (state, log) = some (.ok (items, last, log')) →
        Done last log') ∧
      ∀ failure log', drain (noted note round) fuel (state, log) = some (.error (failure, log')) →
        Broken failure log' := by
  have ended := @drain_ends _ _ _ (noted note round) (fun noted => Invariant noted.1 noted.2)
    (fun last => Done last.1 last.2) (fun failure => Broken failure.1 failure.2) ?_ ?_ ?_ ?_ fuel
    (state, log) holds
  · exact ⟨fun items last log' => ended.1 items (last, log'),
      fun failure log' => ended.2 (failure, log')⟩
  · intro state later holds calls
    simp only [noted] at calls
    cases body : round state.1 with
    | again next =>
        rw [body] at calls
        cases calls
        exact again holds body
    | _ =>
        rw [body] at calls
        cases calls
  · intro state later item holds calls
    simp only [noted] at calls
    cases body : round state.1 with
    | yields item next =>
        rw [body] at calls
        cases calls
        exact yields holds body
    | _ =>
        rw [body] at calls
        cases calls
  · intro state later holds calls
    simp only [noted] at calls
    cases body : round state.1 with
    | ends next =>
        rw [body] at calls
        cases calls
        exact ends holds body
    | _ =>
        rw [body] at calls
        cases calls
  · intro state failure holds calls
    simp only [noted] at calls
    cases body : round state.1 with
    | fails failure =>
        rw [body] at calls
        cases calls
        exact fails holds body
    | _ =>
        rw [body] at calls
        cases calls

end Noted

/-! ## Lists gone through whole -/

theorem bind_eq_ok_iff {First Second Failure : Type} {first : Except Failure First}
    {second : First → Except Failure Second} {result : Second} :
    (first >>= second) = .ok result ↔ ∃ value, first = .ok value ∧ second value = .ok result := by
  cases first with
  | error failure => exact iff_of_false nofun nofun
  | ok value => exact ⟨fun same => ⟨value, rfl, same⟩, fun ⟨_, same, rest⟩ => by cases same; exact rest⟩

/-- A list is gone through whole just when each of its elements is. -/
theorem mapM_eq_ok_iff {Source Target Failure : Type} {make : Source → Except Failure Target}
    {sources : List Source} {targets : List Target} :
    sources.mapM make = .ok targets ↔
      List.Forall₂ (fun source target => make source = .ok target) sources targets := by
  induction sources generalizing targets with
  | nil =>
      rw [List.mapM_nil, List.forall₂_nil_left_iff]
      exact ⟨fun same => (Except.ok.inj same).symm, fun same => same ▸ rfl⟩
  | cons source sources before =>
      rw [List.mapM_cons, List.forall₂_cons_left_iff]
      cases first : make source with
      | error failure => exact ⟨nofun, fun ⟨_, _, made, _⟩ => nomatch made⟩
      | ok target =>
          cases rest : sources.mapM make with
          | error failure =>
              refine ⟨nofun, fun ⟨_, others, _, all, _⟩ => ?_⟩
              rw [before.mpr all] at rest
              cases rest
          | ok others =>
              have all := before.mp rest
              constructor
              · intro same
                exact ⟨target, others, rfl, all, (Except.ok.inj same).symm⟩
              · rintro ⟨_, others', made, all', rfl⟩
                obtain rfl := Except.ok.inj made
                rw [before.mpr all'] at rest
                obtain rfl := Except.ok.inj rest
                rfl

/-- Every result was made from an element. -/
theorem exists_source_of_mapM {Source Target Failure : Type} {make : Source → Except Failure Target}
    {sources : List Source} {targets : List Target} (made : sources.mapM make = .ok targets)
    {target : Target} (member : target ∈ targets) :
    ∃ source ∈ sources, make source = .ok target := by
  have all := mapM_eq_ok_iff.mp made
  induction all with
  | nil => cases member
  | @cons source first sources targets here _ before =>
      rcases List.mem_cons.mp member with rfl | later
      · exact ⟨source, List.mem_cons_self, here⟩
      · rename_i rest
        have ⟨found, inside, same⟩ := before (mapM_eq_ok_iff.mpr rest) later
        exact ⟨found, List.mem_cons_of_mem _ inside, same⟩

/-- Nothing fails just when it fails for no element. -/
theorem exists_mapM_ok_iff {Source Target Failure : Type} {make : Source → Except Failure Target}
    {sources : List Source} :
    (∃ targets, sources.mapM make = .ok targets) ↔
      ∀ source ∈ sources, ∃ target, make source = .ok target := by
  simp only [mapM_eq_ok_iff]
  induction sources with
  | nil => exact iff_of_true ⟨[], .nil⟩ nofun
  | cons source sources before =>
      rw [List.forall_mem_cons, ← before]
      constructor
      · intro ⟨_, all⟩
        have ⟨target, targets, first, rest, _⟩ := List.forall₂_cons_left_iff.mp all
        exact ⟨⟨target, first⟩, targets, rest⟩
      · intro ⟨⟨target, first⟩, targets, rest⟩
        exact ⟨target :: targets, .cons first rest⟩

end Hwio.Library
