import Hwio.Library.Interning
import Hwio.Library.Runs

/-!
Contract: processes that take turns on one object.

Owns the order that turns give to the calls of the programs of some processes,
the answers of each process in an order, when a call precedes another one, and
the rule by which a system does what the object does.

Does not own any object or process.
-/

namespace Hwio.Library

variable {Process Call Answer State Event : Type} [DecidableEq Process]

/-! ## Orders -/

/-- The calls that one process makes in an order. -/
def callsOf (process : Process) (order : List (Process × Call)) : List Call :=
  order.filterMap fun entry => if entry.1 = process then some entry.2 else none

@[simp] theorem callsOf_append (process : Process) (first second : List (Process × Call)) :
    callsOf process (first ++ second) = callsOf process first ++ callsOf process second :=
  List.filterMap_append

theorem callsOf_cons_self (process : Process) (call : Call) (rest : List (Process × Call)) :
    callsOf process ((process, call) :: rest) = call :: callsOf process rest :=
  List.filterMap_cons_some (if_pos rfl)

theorem callsOf_cons_other {process other : Process} (apart : other ≠ process) (call : Call)
    (rest : List (Process × Call)) :
    callsOf process ((other, call) :: rest) = callsOf process rest :=
  List.filterMap_cons_none (if_neg apart)

theorem mem_callsOf {process : Process} {call : Call} {order : List (Process × Call)} :
    call ∈ callsOf process order ↔ (process, call) ∈ order := by
  rw [callsOf, List.mem_filterMap]
  constructor
  · rintro ⟨⟨other, made⟩, member, same⟩
    by_cases own : other = process
    · rw [if_pos own] at same
      rw [← own, ← Option.some.inj same]
      exact member
    · rw [if_neg own] at same
      cases same
  · exact fun member => ⟨(process, call), member, if_pos rfl⟩

/-- The calls of an order before the last one of a process are those of its
front. -/
theorem callsOf_split {process : Process} {order : List (Process × Call)} {k : Nat} {call : Call}
    (at_k : (callsOf process order)[k]? = some call) :
    ∃ front back, order = front ++ (process, call) :: back ∧ (callsOf process front).length = k := by
  induction order generalizing k with
  | nil => cases at_k
  | cons entry rest inductionHypothesis =>
      obtain ⟨other, made⟩ := entry
      by_cases own : other = process
      · subst own
        rw [callsOf_cons_self] at at_k
        cases k with
        | zero =>
            obtain rfl := Option.some.inj at_k
            exact ⟨[], rest, rfl, rfl⟩
        | succ k =>
            obtain ⟨front, back, rfl, length⟩ := inductionHypothesis at_k
            refine ⟨(other, made) :: front, back, rfl, ?_⟩
            rw [callsOf_cons_self, List.length_cons, length]
      · rw [callsOf_cons_other own] at at_k
        obtain ⟨front, back, rfl, length⟩ := inductionHypothesis at_k
        refine ⟨(other, made) :: front, back, rfl, ?_⟩
        rw [callsOf_cons_other own, length]

/-- A call of a process has one place in an order. -/
theorem front_unique {process : Process} {call call' : Call}
    {front back front' back' : List (Process × Call)}
    (same : front ++ (process, call) :: back = front' ++ (process, call') :: back')
    (calls : (callsOf process front).length = (callsOf process front').length) :
    front = front' := by
  have shorter : ∀ {first second behind behind' : List (Process × Call)} {made made' : Call},
      first ++ (process, made) :: behind = second ++ (process, made') :: behind' →
        (callsOf process first).length = (callsOf process second).length → first <+: second →
          first = second := by
    rintro first second behind behind' made made' same calls ⟨more, rfl⟩
    cases more with
    | nil => exact (List.append_nil first).symm
    | cons entry more =>
        rw [List.append_assoc] at same
        obtain ⟨rfl, _⟩ := List.cons.inj (List.append_cancel_left same)
        rw [callsOf_append, callsOf_cons_self, List.length_append, List.length_cons] at calls
        omega
  rcases List.prefix_or_prefix_of_prefix (List.prefix_append front ((process, call) :: back))
    (same ▸ List.prefix_append front' ((process, call') :: back')) with before | before
  · exact shorter same calls before
  · exact (shorter same.symm calls.symm before).symm

/-- A part of an order with more calls of a process than stand before one of them
has this one in it. -/
theorem front_reaches {process : Process} {call : Call}
    {front back later rest : List (Process × Call)}
    (same : front ++ (process, call) :: back = later ++ rest)
    (calls : (callsOf process front).length < (callsOf process later).length) :
    front ++ [(process, call)] <+: later := by
  have reached : front ++ [(process, call)] <+: later ++ rest :=
    ⟨back, by rw [← same, List.append_assoc, List.singleton_append]⟩
  rcases List.prefix_or_prefix_of_prefix reached (List.prefix_append later rest) with
    inside | ⟨more, short⟩
  · exact inside
  · rcases List.eq_nil_or_concat more with rfl | ⟨init, last, rfl⟩
    · rw [List.append_nil] at short
      rw [short]
    · rw [List.concat_eq_append, ← List.append_assoc] at short
      have split := (List.append_inj' short rfl).1
      rw [← split, callsOf_append, List.length_append] at calls
      omega

/-- In the order, the `k`-th call of one process comes before the `j`-th one of
another, which need not be in it yet. -/
def Precedes (order : List (Process × Call)) (first : Process × Nat) (second : Process × Nat) :
    Prop :=
  ∃ front back, order = front ++ back ∧ first.2 < (callsOf first.1 front).length ∧
    (callsOf second.1 front).length ≤ second.2

theorem Precedes.mono {order later : List (Process × Call)} {first second : Process × Nat}
    (precedes : Precedes order first second) (grown : order <+: later) :
    Precedes later first second := by
  obtain ⟨front, back, rfl, there, missing⟩ := precedes
  obtain ⟨more, rfl⟩ := grown
  exact ⟨front, back ++ more, List.append_assoc .., there, missing⟩

/-! ## Turns -/

/-- The order in which processes that take turns make the calls of their
programs. -/
def schedule (programs : Process → List Call) : List Process → List (Process × Call)
  | [] => []
  | process :: turns =>
      match programs process with
      | [] => schedule programs turns
      | call :: rest =>
          (process, call) :: schedule (Function.update programs process rest) turns

/-- A process makes the first calls of its program, one in each of its turns. -/
theorem callsOf_schedule (programs : Process → List Call) (process : Process)
    (turns : List Process) :
    callsOf process (schedule programs turns) = (programs process).take (turns.count process) := by
  induction turns generalizing programs with
  | nil => rfl
  | cons turn turns inductionHypothesis =>
      rw [schedule]
      by_cases own : turn = process
      · subst own
        rw [List.count_cons_self]
        cases program : programs turn with
        | nil =>
            have same := inductionHypothesis programs
            rw [program, List.take_nil] at same
            rw [List.take_nil]
            exact same
        | cons call rest =>
            simp only
            rw [callsOf_cons_self, inductionHypothesis, Function.update_self, List.take_succ_cons]
      · rw [List.count_cons_of_ne own]
        cases programs turn with
        | nil => exact inductionHypothesis programs
        | cons call rest =>
            simp only
            rw [callsOf_cons_other own, inductionHypothesis,
              Function.update_of_ne (Ne.symm own)]

/-- Nothing is made but the calls of the programs. -/
theorem mem_program_of_mem_schedule {programs : Process → List Call} {turns : List Process}
    {entry : Process × Call} (member : entry ∈ schedule programs turns) :
    entry.2 ∈ programs entry.1 := by
  have made : entry.2 ∈ callsOf entry.1 (schedule programs turns) := mem_callsOf.mpr member
  rw [callsOf_schedule] at made
  exact List.mem_of_mem_take made

/-- Later turns go on with what is left of the programs. -/
theorem schedule_append (programs : Process → List Call) (first second : List Process) :
    schedule programs (first ++ second) = schedule programs first ++
      schedule (fun process => (programs process).drop (first.count process)) second := by
  induction first generalizing programs with
  | nil => rfl
  | cons turn first inductionHypothesis =>
      have left : ∀ rest : List Call, (programs turn).tail = rest →
          (fun process => (Function.update programs turn rest process).drop
            (first.count process)) =
          fun process => (programs process).drop ((turn :: first).count process) := by
        intro rest tail
        funext process
        by_cases own : process = turn
        · subst own
          rw [Function.update_self, List.count_cons_self, ← tail, List.drop_tail]
        · rw [Function.update_of_ne own, List.count_cons_of_ne (Ne.symm own)]
      rw [List.cons_append, schedule, schedule]
      cases program : programs turn with
      | nil =>
          have same := left [] (by rw [program]; rfl)
          rw [← program, Function.update_eq_self] at same
          simp only
          rw [inductionHypothesis, same]
      | cons call rest =>
          simp only
          rw [inductionHypothesis, left rest (by rw [program]; rfl), List.cons_append]

/-- The next turn of a process that has a call left. -/
theorem schedule_snoc {programs : Process → List Call} {turns : List Process} {process : Process}
    {call : Call} (next : (programs process)[turns.count process]? = some call) :
    schedule programs (turns ++ [process]) = schedule programs turns ++ [(process, call)] := by
  obtain ⟨inside, same⟩ := List.getElem?_eq_some_iff.mp next
  rw [schedule_append, schedule, List.drop_eq_getElem_cons inside, same]
  rfl

/-- The order when, behind some turns, one process makes the rest of its program
and the others make nothing more. -/
def completed (programs : Process → List Call) (process : Process) (turns : List Process) :
    List (Process × Call) :=
  schedule programs turns ++ ((programs process).drop (turns.count process)).map (Prod.mk process)

/-- Turns of the process itself do not change it. -/
theorem completed_append (programs : Process → List Call) {process : Process}
    (turns : List Process) {more : List Process} (own : ∀ turn ∈ more, turn = process) :
    completed programs process (turns ++ more) = completed programs process turns := by
  induction more generalizing turns with
  | nil => rw [List.append_nil]
  | cons turn more inductionHypothesis =>
      obtain rfl := own turn List.mem_cons_self
      have once : completed programs turn (turns ++ [turn]) = completed programs turn turns := by
        rw [completed, completed, List.count_append, List.count_singleton_self]
        cases next : (programs turn)[turns.count turn]? with
        | none =>
            have past := List.getElem?_eq_none_iff.mp next
            rw [schedule_append, schedule, List.drop_eq_nil_of_le past,
              List.drop_eq_nil_of_le (Nat.le_succ_of_le past)]
            exact congrArg (· ++ _) (List.append_nil _)
        | some call =>
            obtain ⟨inside, same⟩ := List.getElem?_eq_some_iff.mp next
            rw [schedule_snoc next, List.drop_eq_getElem_cons inside, same, List.append_assoc]
            rfl
      rw [← List.singleton_append, ← List.append_assoc,
        inductionHypothesis _ fun other member => own other (List.mem_cons_of_mem _ member), once]

theorem schedule_prefix_completed (programs : Process → List Call) (process : Process)
    (turns : List Process) : schedule programs turns <+: completed programs process turns :=
  List.prefix_append _ _

/-! ## Answers -/

variable (step : Process × Call → State → Answer × State)

/-- The answers that a process gets when the calls of an order are made on the
object one after the other. -/
def answersIn (process : Process) (order : List (Process × Call)) (state : State) : List Answer :=
  callsOf process ((order.map Prod.fst).zip (runAll step order state).1)

theorem answersIn_append (process : Process) (first second : List (Process × Call))
    (state : State) :
    answersIn step process (first ++ second) state = answersIn step process first state ++
      answersIn step process second (runAll step first state).2 := by
  have length : ∀ (order : List (Process × Call)) (state : State),
      (order.map Prod.fst).length = (runAll step order state).1.length := by
    intro order
    induction order with
    | nil => exact fun _ => rfl
    | cons entry rest inductionHypothesis =>
        intro state
        rw [List.map_cons, List.length_cons, inductionHypothesis (step entry state).2]
        rfl
  rw [answersIn, runAll_append, List.map_append, List.zip_append (length first state),
    callsOf_append]
  rfl

theorem answersIn_length (process : Process) (order : List (Process × Call)) (state : State) :
    (answersIn step process order state).length = (callsOf process order).length := by
  induction order generalizing state with
  | nil => rfl
  | cons entry rest inductionHypothesis =>
      rw [← List.singleton_append, answersIn_append, List.length_append, inductionHypothesis,
        callsOf_append, List.length_append]
      congr 1
      obtain ⟨other, call⟩ := entry
      show (callsOf process [(other, (step (other, call) state).1)]).length =
        (callsOf process [(other, call)]).length
      by_cases own : other = process
      · subst own
        rw [callsOf_cons_self, callsOf_cons_self]
        rfl
      · rw [callsOf_cons_other own, callsOf_cons_other own]
        rfl

/-- The answer to a call is that of the object in the state that the calls
before it left. -/
theorem answersIn_at (process : Process) (call : Call) (front back : List (Process × Call))
    (state : State) :
    (answersIn step process (front ++ (process, call) :: back) state)[(callsOf process
      front).length]? = some (step (process, call) (runAll step front state).2).1 := by
  rw [answersIn_append, ← List.singleton_append, answersIn_append,
    List.getElem?_append_right (Nat.le_of_eq (answersIn_length step process front state)),
    answersIn_length, Nat.sub_self]
  have first : answersIn step process [(process, call)] (runAll step front state).2 =
      [(step (process, call) (runAll step front state).2).1] := callsOf_cons_self ..
  rw [first]
  rfl

/-- Later calls do not change the answers to earlier ones. -/
theorem answersIn_prefix (process : Process) {order later : List (Process × Call)}
    (grown : order <+: later) (state : State) :
    answersIn step process order state <+: answersIn step process later state := by
  obtain ⟨more, rfl⟩ := grown
  rw [answersIn_append]
  exact List.prefix_append _ _

/-! ## Systems that do what the object does -/

/-- A system is related to the object after each history when it is at the start,
and every event that is the turn of a process does what the next call of this
process does on the object, while the others do nothing there. -/
theorem related_after_turns {turn : Event → Option Process} {programs : Process → List Call}
    {Related : List Event → State → Prop} {history : List Event} {state : State}
    (begun : Related [] state)
    (silent : ∀ front event back, history = front ++ event :: back → turn event = none →
      ∀ state, Related front state → Related (front ++ [event]) state)
    (turned : ∀ front event back process, history = front ++ event :: back →
      turn event = some process → ∃ call,
        (programs process)[(front.filterMap turn).count process]? = some call ∧
          ∀ state, Related front state →
            Related (front ++ [event]) (step (process, call) state).2)
    {front : List Event} (part : front <+: history) :
    Related front (runAll step (schedule programs (front.filterMap turn)) state).2 := by
  induction front using List.reverseRecOn with
  | nil => exact begun
  | append_singleton front event inductionHypothesis =>
      obtain ⟨back, whole⟩ := part
      have split : history = front ++ event :: back := by
        rw [← whole, List.append_assoc, List.singleton_append]
      have before := inductionHypothesis ⟨event :: back, split.symm⟩
      rw [List.filterMap_append]
      cases owner : turn event with
      | none =>
          rw [List.filterMap_cons_none owner, List.filterMap_nil, List.append_nil]
          exact silent front event back split owner _ before
      | some process =>
          obtain ⟨call, next, follows⟩ := turned front event back process split owner
          rw [List.filterMap_cons_some owner, List.filterMap_nil, schedule_snoc next, runAll_snoc]
          exact follows _ before

end Hwio.Library
