import Hwio.Cli.Options
import Hwio.Library.Removal

/-!
Contract: `rm_comsumed_args` of `hwio_cli.cpp`, the options taken out of the
caller's `argv`.

Owns the search for the option words, what the in-place removal leaves of
`argv`, and when it leaves the other arguments.

Does not own the copy of `argv` that the options are parsed from.  A `char *` is
its address, and what it points to a text.
-/

namespace Hwio

open Library

/-! ## The code -/

/-- The names in `reducible_args`. -/
def reducibleArgs : List Text := longOpts.map fun option => dash :: dash :: option.1

/-- The loop that fills `consumed_args`, from `argv[i]` on. -/
def consumedArgs : Nat → List Text → List Nat
  | _, [] => []
  | i, [word] => if word ∈ reducibleArgs then [i, i + 1] else []
  | i, word :: value :: rest =>
      if word ∈ reducibleArgs then i :: (i + 1) :: consumedArgs (i + 2) rest
      else consumedArgs (i + 1) (value :: rest)

/-- `rm_comsumed_args`: `argc` and the array behind it.  The predicate returns
the negation of `do_remove`. -/
def rmComsumedArgs (pointee : Nat → Text) (argv : List Nat) : Int × List Nat :=
  let consumed := consumedArgs 1 ((argv.drop 1).map pointee)
  let doRemove := fun i => decide (i ∈ consumed)
  ((argv.length : Int) - consumed.length, (removeIf (fun i => !doRemove i) argv).1)

/-! ## Arguments -/

/-- What a command line consists of behind the name of the program: options of
two words, and other words. -/
inductive CliArg where
  | option (name value : Text)
  | other (word : Text)
deriving DecidableEq, Repr

namespace CliArg

def words : CliArg → List Text
  | .option name value => [dash :: dash :: name, value]
  | .other word => [word]

/-- Options are those of the table, and other words are not spelled like one. -/
def WellFormed : CliArg → Prop
  | .option name _ => name ∈ longOpts.map Prod.fst
  | .other word => word ∉ reducibleArgs

instance (arg : CliArg) : Decidable arg.WellFormed :=
  match arg with
  | .option name _ => inferInstanceAs (Decidable (name ∈ longOpts.map Prod.fst))
  | .other word => inferInstanceAs (Decidable (word ∉ reducibleArgs))

def isOption : CliArg → Bool
  | .option _ _ => true
  | .other _ => false

/-- The number of words of the options. -/
def optionWords : List CliArg → Nat
  | [] => 0
  | .option _ _ :: args => optionWords args + 2
  | .other _ :: args => optionWords args

/-- The pointers to the other arguments. -/
def others : List CliArg → List Nat → List Nat
  | .option _ _ :: args, _ :: _ :: ptrs => others args ptrs
  | .other _ :: args, ptr :: ptrs => ptr :: others args ptrs
  | _, _ => []

end CliArg

/-- The options are taken out of `argv` and nothing else. -/
def RemovesOptions (pointee : Nat → Text) (argv : List Nat) (args : List CliArg) : Prop :=
  (rmComsumedArgs pointee argv).1 = argv.length - CliArg.optionWords args ∧
    (rmComsumedArgs pointee argv).2.take (rmComsumedArgs pointee argv).1.toNat =
      argv.take 1 ++ CliArg.others args (argv.drop 1)

/-! ## What is consumed -/

theorem consumedArgs_other {word : Text} (other : word ∉ reducibleArgs) (i : Nat)
    (rest : List Text) : consumedArgs i (word :: rest) = consumedArgs (i + 1) rest := by
  cases rest with
  | nil => exact if_neg other
  | cons value rest => exact if_neg other

theorem consumedArgs_option {word : Text} (option : word ∈ reducibleArgs) (i : Nat)
    (value : Text) (rest : List Text) :
    consumedArgs i (word :: value :: rest) = i :: (i + 1) :: consumedArgs (i + 2) rest := by
  rw [consumedArgs, if_pos option]

theorem reducible_of_name {name : Text} (known : name ∈ longOpts.map Prod.fst) :
    dash :: dash :: name ∈ reducibleArgs := by
  obtain ⟨option, among, same⟩ := List.mem_map.mp known
  exact List.mem_map.mpr ⟨option, among, by rw [same]⟩

/-- No place in front of where the loop begins is found. -/
theorem consumedArgs_from {place i : Nat} {words : List Text}
    (found : place ∈ consumedArgs i words) : i ≤ place := by
  induction i, words using consumedArgs.induct with
  | case1 i => cases found
  | case2 i word option =>
      rw [consumedArgs, if_pos option] at found
      simp only [List.mem_cons, List.not_mem_nil, or_false] at found
      omega
  | case3 i word other =>
      rw [consumedArgs, if_neg other] at found
      cases found
  | case4 i word value rest option inductionHypothesis =>
      rw [consumedArgs, if_pos option, List.mem_cons, List.mem_cons] at found
      rcases found with same | same | later
      · omega
      · omega
      · exact Nat.le_of_add_right_le (inductionHypothesis later)
  | case5 i word value rest other inductionHypothesis =>
      rw [consumedArgs, if_neg other] at found
      exact Nat.le_of_succ_le (inductionHypothesis found)

section Consumed

variable {args : List CliArg}

/-- The loop finds as many places as there are words of options. -/
theorem consumedArgs_length (wellFormed : ∀ arg ∈ args, arg.WellFormed) (i : Nat) :
    (consumedArgs i (args.flatMap CliArg.words)).length = CliArg.optionWords args := by
  induction args generalizing i with
  | nil => rfl
  | cons arg rest inductionHypothesis =>
      rw [List.forall_mem_cons] at wellFormed
      obtain ⟨first, behind⟩ := wellFormed
      rw [List.flatMap_cons]
      cases arg with
      | option name value =>
          simp only [CliArg.words, List.cons_append, List.nil_append]
          rw [consumedArgs_option (reducible_of_name first), List.length_cons, List.length_cons,
            inductionHypothesis behind, CliArg.optionWords]
      | other word =>
          simp only [CliArg.words, List.cons_append, List.nil_append]
          rw [consumedArgs_other first, inductionHypothesis behind, CliArg.optionWords]

theorem optionWords_eq_zero_iff :
    CliArg.optionWords args = 0 ↔ ∀ arg ∈ args, arg.isOption = false := by
  induction args with
  | nil => simp [CliArg.optionWords]
  | cons arg rest inductionHypothesis =>
      rw [List.forall_mem_cons, ← inductionHypothesis]
      cases arg with
      | option name value => simp [CliArg.optionWords, CliArg.isOption]
      | other word => simp [CliArg.optionWords, CliArg.isOption]

theorem optionWords_le : CliArg.optionWords args ≤ (args.flatMap CliArg.words).length := by
  induction args with
  | nil => exact Nat.le_refl _
  | cons arg rest inductionHypothesis =>
      rw [List.flatMap_cons, List.length_append]
      cases arg with
      | option name value =>
          rw [CliArg.optionWords, CliArg.words, Nat.add_comm, List.length_cons,
            List.length_singleton]
          exact Nat.add_le_add_left inductionHypothesis 2
      | other word =>
          rw [CliArg.optionWords, CliArg.words]
          exact Nat.le_add_left_of_le inductionHypothesis

theorem others_of_none (none : ∀ arg ∈ args, arg.isOption = false) {ptrs : List Nat}
    (length : ptrs.length = (args.flatMap CliArg.words).length) : CliArg.others args ptrs = ptrs := by
  induction args generalizing ptrs with
  | nil =>
      rw [List.eq_nil_of_length_eq_zero length]
      rfl
  | cons arg rest inductionHypothesis =>
      rw [List.forall_mem_cons] at none
      obtain ⟨first, behind⟩ := none
      cases arg with
      | option name value => cases first
      | other word =>
          cases ptrs with
          | nil => cases length
          | cons ptr ptrs =>
              rw [CliArg.others, inductionHypothesis behind (Nat.succ.inj length)]

end Consumed

/-! ## What is left -/

variable {pointee : Nat → Text} {argv : List Nat} {prog : Text} {args : List CliArg}

/-- Where nothing is consumed, nothing is moved. -/
theorem removesOptions_of_none (written : argv.map pointee = prog :: args.flatMap CliArg.words)
    (wellFormed : ∀ arg ∈ args, arg.WellFormed) (none : ∀ arg ∈ args, arg.isOption = false) :
    RemovesOptions pointee argv args := by
  have behind : (argv.drop 1).map pointee = args.flatMap CliArg.words := by
    rw [List.map_drop, written]
    rfl
  have zero := optionWords_eq_zero_iff.mpr none
  have consumed : consumedArgs 1 (args.flatMap CliArg.words) = [] := by
    rw [← List.length_eq_zero_iff, consumedArgs_length wellFormed 1, zero]
  have left : kept (fun i => !decide (i ∈ ([] : List Nat))) 0 argv = [] := by
    rw [List.eq_nil_iff_forall_not_mem]
    intro cell stays
    obtain ⟨_, _, tested⟩ := (mem_kept_iff _).mp stays
    simp at tested
  have others := @others_of_none args none (argv.drop 1) (by rw [← behind, List.length_map])
  have all : (rmComsumedArgs pointee argv) = ((argv.length : Int), argv) := by
    simp only [rmComsumedArgs, behind, consumed, removeIf_eq, left]
    simp
  rw [RemovesOptions, all, zero, others, List.take_append_drop]
  exact ⟨(Int.sub_zero _).symm, List.take_of_length_le (Nat.le_refl _)⟩

/-- Where something is consumed, the first pointer that stays is one to an option. -/
theorem kept_head {ptrs : List Nat} {start : Nat}
    (consumed : consumedArgs start (ptrs.map pointee) ≠ []) :
    ∃ ptr ∈ ptrs, pointee ptr ∈ reducibleArgs ∧
      (kept (fun i => !decide (i ∈ consumedArgs start (ptrs.map pointee))) start ptrs).head? =
        some ptr := by
  induction ptrs generalizing start with
  | nil => exact absurd rfl consumed
  | cons ptr rest inductionHypothesis =>
      rw [List.map_cons] at consumed ⊢
      by_cases option : pointee ptr ∈ reducibleArgs
      · refine ⟨ptr, List.mem_cons_self, option, ?_⟩
        have first : start ∈ consumedArgs start (pointee ptr :: rest.map pointee) := by
          cases rest with
          | nil => simp [consumedArgs, option]
          | cons value rest => simp [consumedArgs, option]
        rw [kept, if_neg (by simp [first])]
        rfl
      · rw [consumedArgs_other option] at consumed ⊢
        obtain ⟨other, among, isOption, head⟩ := inductionHypothesis consumed
        have none : start ∉ consumedArgs (start + 1) (rest.map pointee) := fun found =>
          absurd (consumedArgs_from found) (Nat.not_succ_le_self start)
        refine ⟨other, List.mem_cons_of_mem _ among, isOption, ?_⟩
        rw [kept, if_pos (by simp [none]), head]

/-- So it comes to the place of `argv[0]`. -/
theorem rmComsumedArgs_head (consumed : consumedArgs 1 ((argv.drop 1).map pointee) ≠ []) :
    ∃ ptr ∈ argv.drop 1, pointee ptr ∈ reducibleArgs ∧
      (rmComsumedArgs pointee argv).2.head? = some ptr := by
  obtain ⟨ptr, among, isOption, head⟩ := kept_head consumed
  refine ⟨ptr, among, isOption, ?_⟩
  cases argv with
  | nil => cases among
  | cons name rest =>
      have none : 0 ∉ consumedArgs 1 (rest.map pointee) := fun found =>
        absurd (consumedArgs_from found) (Nat.not_succ_le_zero 0)
      change (kept (fun i => !decide (i ∈ consumedArgs 1 (rest.map pointee))) 1 rest).head? =
        some ptr at head
      simp only [rmComsumedArgs, removeIf_eq, List.drop_one, List.tail_cons]
      rw [kept, if_pos (by simp [none]), List.head?_append, head]
      rfl

/-- No option is at the address of `argv[0]`. -/
def HeadApart (pointee : Nat → Text) (argv : List Nat) : Prop :=
  ∀ ptr ∈ argv.drop 1, pointee ptr ∈ reducibleArgs → argv.head? ≠ some ptr

instance (pointee : Nat → Text) (argv : List Nat) : Decidable (HeadApart pointee argv) :=
  inferInstanceAs (Decidable (∀ ptr ∈ argv.drop 1, _))

theorem removesOptions_iff (written : argv.map pointee = prog :: args.flatMap CliArg.words)
    (wellFormed : ∀ arg ∈ args, arg.WellFormed) (apart : HeadApart pointee argv) :
    RemovesOptions pointee argv args ↔ ∀ arg ∈ args, arg.isOption = false := by
  constructor
  · rintro ⟨argc, left⟩
    by_contra some
    have behind : (argv.drop 1).map pointee = args.flatMap CliArg.words := by
      rw [List.map_drop, written]
      rfl
    have size : argv.length = (args.flatMap CliArg.words).length + 1 := by
      rw [← List.length_map pointee, written, List.length_cons]
    have positive : CliArg.optionWords args ≠ 0 := fun zero => some (optionWords_eq_zero_iff.mp zero)
    have consumed : consumedArgs 1 ((argv.drop 1).map pointee) ≠ [] := by
      rw [behind, ← List.length_pos_iff, consumedArgs_length wellFormed]
      exact Nat.pos_of_ne_zero positive
    obtain ⟨ptr, among, isOption, head⟩ := rmComsumedArgs_head consumed
    have fewer := @optionWords_le args
    have nonempty : (rmComsumedArgs pointee argv).1.toNat ≠ 0 := by
      rw [argc]
      omega
    apply apart ptr among isOption
    have front := congrArg List.head? left
    rw [List.head?_take, if_neg nonempty, head] at front
    cases argv with
    | nil => cases among
    | cons name rest => exact front.symm
  · exact removesOptions_of_none written wellFormed

/-- For every command line of separate words: the options are taken out and nothing
else at whatever places the words are just when there is no option; and so it is at
each of these places, unless an option is at the address of `argv[0]`. -/
theorem options_removed_iff (prog : Text) {args : List CliArg}
    (wellFormed : ∀ arg ∈ args, arg.WellFormed) :
    ((∀ (pointee : Nat → Text) (argv : List Nat),
        argv.map pointee = prog :: args.flatMap CliArg.words → RemovesOptions pointee argv args) ↔
      ∀ arg ∈ args, arg.isOption = false) ∧
    ∀ (pointee : Nat → Text) (argv : List Nat),
      argv.map pointee = prog :: args.flatMap CliArg.words → HeadApart pointee argv →
        (RemovesOptions pointee argv args ↔ ∀ arg ∈ args, arg.isOption = false) := by
  refine ⟨⟨fun removes => ?_, fun none pointee argv written => ?_⟩, fun pointee argv written => ?_⟩
  · -- the words are put at the addresses from 0 on
    obtain ⟨words, whole⟩ : ∃ words, words = prog :: args.flatMap CliArg.words := ⟨_, rfl⟩
    have written : (List.range words.length).map (fun ptr => words.getD ptr []) = words := by
      apply List.ext_getElem (by simp)
      intro index below _
      rw [List.length_map, List.length_range] at below
      simp [below]
    have apart : HeadApart (fun ptr => words.getD ptr []) (List.range words.length) := by
      intro ptr among _
      rw [whole, List.length_cons, List.range_succ_eq_map, List.drop_one, List.tail_cons] at among
      obtain ⟨index, _, rfl⟩ := List.mem_map.mp among
      rw [whole, List.length_cons, List.range_succ_eq_map, List.head?_cons]
      simp
    exact (removesOptions_iff (written.trans whole) wellFormed apart).mp
      (removes _ _ (written.trans whole))
  · exact removesOptions_of_none written wellFormed none
  · exact removesOptions_iff written wellFormed

/-- Nothing in `prog -v file` is an option; one of `prog --hwio_json x.json` is not
taken out. -/
theorem only_words_without_options_stay :
    RemovesOptions (fun ptr => [text "prog", text "-v", text "file"].getD ptr []) [0, 1, 2]
        [.other (text "-v"), .other (text "file")] ∧
      ¬ RemovesOptions (fun ptr => [text "prog", text "--hwio_json", text "x.json"].getD ptr [])
        [0, 1, 2] [.option (text "hwio_json") (text "x.json")] := by
  constructor
  · exact (@options_removed_iff (text "prog") [.other (text "-v"), .other (text "file")]
      (by decide)).1.mpr (by decide) _ _ rfl
  · have removed := (@options_removed_iff (text "prog")
      [.option (text "hwio_json") (text "x.json")] (by decide)).2
      (fun ptr => [text "prog", text "--hwio_json", text "x.json"].getD ptr []) [0, 1, 2] rfl
      (by decide)
    rw [removed]
    decide

/-- Of `prog --hwio_json x.json file` the option and its value are left. -/
theorem option_left_in_argv :
    let words := [text "prog", text "--hwio_json", text "x.json", text "file"]
    let args := [CliArg.option (text "hwio_json") (text "x.json"), .other (text "file")]
    (∀ arg ∈ args, arg.WellFormed) ∧ words = text "prog" :: args.flatMap CliArg.words ∧
      rmComsumedArgs (fun ptr => words.getD ptr []) [0, 1, 2, 3] = (2, [1, 2, 2, 3]) ∧
      ¬ RemovesOptions (fun ptr => words.getD ptr []) [0, 1, 2, 3] args := by
  have left : rmComsumedArgs (fun ptr => [text "prog", text "--hwio_json", text "x.json",
      text "file"].getD ptr []) [0, 1, 2, 3] = (2, [1, 2, 2, 3]) := by decide
  refine ⟨by decide, by decide, left, ?_⟩
  rintro ⟨_, taken⟩
  rw [left] at taken
  exact absurd taken (by decide)

end Hwio
