import Hwio.Bus.Devicetree
import Hwio.Cli.ConsumedArgs
import Hwio.Device.Attaching

/-!
Contract: `hwio_init` of `hwio_cli.cpp`, the buses that a command line asks for.

Owns the private copy of `argv` and its release, the loop over the options, the
devicetree bus that is made behind the loop, and the texts that the devicetree
buses are constructed with.

Does not own how a bus is made of its texts.
-/

namespace Hwio

open Library

variable {Bus : Type}

/-! ## The copy of `argv` -/

/-- `copy_argv`: the copied arguments; one that was freed has no text. -/
def copyArgv (argv : List Text) : List (Option Text) := argv.map some

/-- `for (auto o: to_free) free(o)` -/
def freeAll (copies : List (Option Text)) : List (Option Text) := copies.map fun _ => none

/-- The text that a pointer into a copy is read to. -/
def WordPtr.read (copies : List (Option Text)) (ptr : WordPtr) : Option Text :=
  (copies.getD ptr.word none).map (List.drop ptr.offset)

/-! ## The options -/

/-- How buses are made: of a configuration file, of the default configuration,
and of the arguments of their constructors. -/
structure BusMakers (Bus : Type) where
  configLoad : Text → Except TreeFailure (List Bus)
  loadDefaultConfig : Except TreeFailure (List Bus)
  remote : Text → Except TreeFailure Bus
  json : Text → Except TreeFailure Bus
  devicetree : Text → Text → Except TreeFailure Bus

/-- What was read for a call of the constructor of `hwio_bus_devicetree`; without
`mem` it is the one with a default for it. -/
structure DevicetreeCall where
  path : Option Text
  mem : Option (Option Text)
deriving DecidableEq, Repr

/-- How `hwio_init` ends without a bus: with a failure, where a freed text is read,
or at its own assertion, which more than one bus fails. -/
inductive InitStop where
  | failed (failure : TreeFailure)
  | readFreed
  | aborted
deriving DecidableEq, Repr

/-- `catch (const std::exception & e) { …; throw e; }`: what is thrown is a copy of
the base of what was caught, with the text of the base.  Assertions are not caught. -/
def InitStop.rethrown : InitStop → InitStop
  | .failed (.thrown _) => .failed (.thrown ⟨false, text "std::exception"⟩)
  | stop => stop

/-- The variables of `hwio_init`, with the devicetree buses constructed so far. -/
structure InitState (Bus : Type) where
  buses : List Bus
  hwioDevicetree : Option WordPtr
  hwioDeviceMem : Option WordPtr
  configSpecified : Bool
  constructed : List DevicetreeCall

def InitState.start : InitState Bus := ⟨[], none, none, false, []⟩

section Loop

variable (makers : BusMakers Bus) (copies : List (Option Text))

/-- `new hwio_bus_devicetree(…)` -/
def newDevicetree (path : WordPtr) (mem : Option WordPtr) (state : InitState Bus) :
    Except InitStop Unit × InitState Bus :=
  let call : DevicetreeCall := ⟨path.read copies, mem.map (·.read copies)⟩
  let state := { state with constructed := state.constructed ++ [call] }
  match call.path, call.mem.getD (some defaultMemPath) with
  | some path, some mem =>
    match makers.devicetree path mem with
    | .error failure => (.error (.failed failure), state)
    | .ok bus => (.ok (), { state with buses := state.buses ++ [bus] })
  | _, _ => (.error .readFreed, state)

/-- `buses.push_back(…)` of what is made of `optarg`. -/
def pushBuses (make : Text → Except TreeFailure (List Bus)) (optarg : WordPtr)
    (state : InitState Bus) : Except InitStop Unit × InitState Bus :=
  match optarg.read copies with
  | none => (.error .readFreed, state)
  | some arg =>
    match make arg with
    | .error failure => (.error (.failed failure), state)
    | .ok buses => (.ok (), { state with buses := state.buses ++ buses })

/-- `switch (opt)` -/
def initOption (opt : CliOption) (optarg : WordPtr) (state : InitState Bus) :
    Except InitStop Unit × InitState Bus :=
  match opt with
  | .config =>
    let (result, state) := pushBuses copies makers.configLoad optarg state
    match result with
    | .error stop => (.error stop, state)
    | .ok () => (.ok (), { state with configSpecified := true })
  | .remote => pushBuses copies (fun host => (makers.remote host).map ([·])) optarg state
  | .json => pushBuses copies (fun file => (makers.json file).map ([·])) optarg state
  | .devicetree =>
    match state.hwioDevicetree with
    | none => (.ok (), { state with hwioDevicetree := some optarg })
    | some path =>
      let (result, state) := newDevicetree makers copies path state.hwioDeviceMem state
      match result with
      | .error stop => (.error stop, state)
      | .ok () => (.ok (), { state with hwioDeviceMem := none, hwioDevicetree := some optarg })
  | .deviceMem =>
    match state.hwioDeviceMem with
    | some _ =>
      (.error (.failed (.thrown ⟨true,
        text "hwio_device_mem cli arg redefinition without hwio_devicetree specified"⟩)), state)
    | none => (.ok (), { state with hwioDeviceMem := some optarg })

/-- The loop over the results of `getopt_long`. -/
def initLoop : List Parsed → InitState Bus → Except InitStop Unit × InitState Bus
  | [], state => (.ok (), state)
  | .unknown :: rest, state => initLoop rest state
  | .option opt optarg :: rest, state =>
      let (result, state) := initOption makers copies opt optarg state
      match result with
      | .error stop => (.error stop, state)
      | .ok () => initLoop rest state

/-- `// consume potential leftover` -/
def consumeLeftover (state : InitState Bus) : Except InitStop Unit × InitState Bus :=
  match state.hwioDevicetree with
  | none => (.ok (), state)
  | some path => newDevicetree makers copies path state.hwioDeviceMem state

end Loop

/-- The default configuration, and the only bus. -/
def chooseBus (makers : BusMakers Bus) (state : InitState Bus) : Except InitStop Bus :=
  match if state.configSpecified then .ok [] else makers.loadDefaultConfig with
  | .error failure => .error (.failed failure)
  | .ok more =>
    match state.buses ++ more with
    | [] => .error (.failed (.thrown ⟨true, text "[HWIO, cli] does not have any bus specified"⟩))
    | [bus] => .ok bus
    | _ => .error .aborted

/-- What `hwio_init` leaves: the devicetree buses it constructed, `argc` and
`argv`, and the bus. -/
structure InitRun (Bus : Type) where
  constructed : List DevicetreeCall
  argc : Int
  argv : List Nat
  bus : Except InitStop Bus

/-- The parsing of the options of a command line. -/
def parseOptions (makers : BusMakers Bus) (posixlyCorrect : Bool) (words : List Text) :
    Except InitStop Unit × InitState Bus :=
  let (result, state) := initLoop makers (copyArgv words) (getoptLong posixlyCorrect words) .start
  (result.mapError InitStop.rethrown, state)

/-- `hwio_init` -/
def hwioInit (makers : BusMakers Bus) (posixlyCorrect : Bool) (pointee : Nat → Text)
    (argv : List Nat) : InitRun Bus :=
  let words := argv.map pointee
  let (parsed, state) := parseOptions makers posixlyCorrect words
  match parsed with
  | .error stop => ⟨state.constructed, argv.length, argv, .error stop⟩
  | .ok () =>
    let (left, state) := consumeLeftover makers (freeAll (copyArgv words)) state
    match left with
    | .error stop => ⟨state.constructed, argv.length, argv, .error stop⟩
    | .ok () =>
      let (argc, argv) := rmComsumedArgs pointee argv
      ⟨state.constructed, argc, argv, chooseBus makers state⟩

/-! ## The texts on the command line -/

/-- An option with the text of its argument. -/
def Parsed.given (words : List Text) : Parsed → Option (CliOption × Text)
  | .option opt optarg => some (opt, optarg.text words)
  | .unknown => none

/-- The options of a command line, with the texts of their arguments. -/
def givenOptions (posixlyCorrect : Bool) (words : List Text) : List (CliOption × Text) :=
  (getoptLong posixlyCorrect words).filterMap (Parsed.given words)

/-- The devicetree buses of some options: the text of each `--hwio_devicetree`,
with that of the `--hwio_device_mem` given up to the next one. -/
def devicetreeArgs : Option Text → Option Text → List (CliOption × Text) →
    List (Text × Option Text)
  | none, _, [] => []
  | some path, mem, [] => [(path, mem)]
  | none, mem, (.devicetree, arg) :: rest => devicetreeArgs (some arg) mem rest
  | some path, mem, (.devicetree, arg) :: rest =>
      (path, mem) :: devicetreeArgs (some arg) none rest
  | path, _, (.deviceMem, arg) :: rest => devicetreeArgs path (some arg) rest
  | path, mem, (.config, _) :: rest | path, mem, (.remote, _) :: rest
  | path, mem, (.json, _) :: rest => devicetreeArgs path mem rest

/-- Calls that read these texts. -/
def readCalls (args : List (Text × Option Text)) : List DevicetreeCall :=
  args.map fun arg => ⟨some arg.1, arg.2.map some⟩

/-- The devicetree buses are constructed with exactly the texts on the command
line. -/
def GetsGivenTexts (makers : BusMakers Bus) (posixlyCorrect : Bool) (pointee : Nat → Text)
    (argv : List Nat) : Prop :=
  (hwioInit makers posixlyCorrect pointee argv).constructed =
    readCalls (devicetreeArgs none none (givenOptions posixlyCorrect (argv.map pointee)))

/-! ## What the loop reads -/

section Texts

variable {words : List Text}

theorem read_copyArgv {ptr : WordPtr} (inside : ptr.word < words.length) :
    ptr.read (copyArgv words) = some (ptr.text words) := by
  have copied : (copyArgv words).getD ptr.word none = some (words.getD ptr.word []) := by
    rw [copyArgv, List.getD_eq_getElem?_getD, List.getD_eq_getElem?_getD, List.getElem?_map,
      List.getElem?_eq_getElem inside]
    rfl
  rw [WordPtr.read, copied]
  rfl

theorem read_freeAll (ptr : WordPtr) (copies : List (Option Text)) :
    ptr.read (freeAll copies) = none := by
  have freed : (freeAll copies).getD ptr.word none = none := by
    rw [freeAll, List.getD_eq_getElem?_getD, List.getElem?_map]
    cases copies[ptr.word]? with
    | none | some copy => rfl
  rw [WordPtr.read, freed]
  rfl

/-- The pointers kept by the loop are into the copies. -/
structure InitState.Inside (words : List Text) (state : InitState Bus) : Prop where
  devicetree : ∀ ptr, state.hwioDevicetree = some ptr → ptr.word < words.length
  deviceMem : ∀ ptr, state.hwioDeviceMem = some ptr → ptr.word < words.length

/-- The devicetree buses that are still to come when these options are left. -/
def InitState.pending (words : List Text) (state : InitState Bus) (rest : List (CliOption × Text)) :
    List DevicetreeCall :=
  readCalls (devicetreeArgs (state.hwioDevicetree.map (·.text words))
    (state.hwioDeviceMem.map (·.text words)) rest)

theorem InitState.start_inside : (InitState.start : InitState Bus).Inside words where
  devicetree ptr same := by cases same
  deviceMem ptr same := by cases same

variable {makers : BusMakers Bus} {state after : InitState Bus}

/-- Buses of other kinds change nothing that the devicetree buses depend on. -/
theorem pushBuses_ok {make : Text → Except TreeFailure (List Bus)} {copies : List (Option Text)}
    {optarg : WordPtr} (returned : pushBuses copies make optarg state = (.ok (), after)) :
    after.hwioDevicetree = state.hwioDevicetree ∧ after.hwioDeviceMem = state.hwioDeviceMem ∧
      after.constructed = state.constructed := by
  unfold pushBuses at returned
  split at returned
  · cases returned
  · split at returned
    · cases returned
    · cases returned
      exact ⟨rfl, rfl, rfl⟩

/-- Whatever comes of it, the call is made with what is read at that time. -/
theorem newDevicetree_constructed (copies : List (Option Text)) (path : WordPtr)
    (mem : Option WordPtr) :
    (newDevicetree makers copies path mem state).2.constructed =
      state.constructed ++ [⟨path.read copies, mem.map (·.read copies)⟩] := by
  unfold newDevicetree
  simp only
  split
  · split
    · rfl
    · rfl
  · rfl

/-- Options of other kinds leave the devicetree buses that are to come. -/
theorem pending_other {opt : CliOption} (other : opt ≠ .devicetree ∧ opt ≠ .deviceMem) (arg : Text)
    (rest : List (CliOption × Text)) :
    state.pending words ((opt, arg) :: rest) = state.pending words rest := by
  unfold InitState.pending
  congr 1
  cases opt with
  | devicetree => exact absurd rfl other.1
  | deviceMem => exact absurd rfl other.2
  | config | remote | json =>
      cases state.hwioDevicetree with
      | none | some path => rw [Option.map, devicetreeArgs]

/-- What one option does: the devicetree buses that are constructed and those
that are still to come stay the same together. -/
structure Took (words : List Text) (opt : CliOption) (arg : Text) (state after : InitState Bus) :
    Prop where
  inside : after.Inside words
  same : ∀ rest, state.constructed ++ state.pending words ((opt, arg) :: rest) =
    after.constructed ++ after.pending words rest
  isSome : after.hwioDevicetree.isSome = true ↔
    state.hwioDevicetree.isSome = true ∨ opt = .devicetree

theorem Took.of_other {opt : CliOption} (other : opt ≠ .devicetree ∧ opt ≠ .deviceMem)
    (inside : state.Inside words) (arg : Text)
    (unchanged : after.hwioDevicetree = state.hwioDevicetree ∧
      after.hwioDeviceMem = state.hwioDeviceMem ∧ after.constructed = state.constructed) :
    Took words opt arg state after := by
  obtain ⟨devicetree, deviceMem, constructed⟩ := unchanged
  constructor
  · exact ⟨fun ptr same => inside.devicetree ptr (devicetree ▸ same),
      fun ptr same => inside.deviceMem ptr (deviceMem ▸ same)⟩
  · intro rest
    rw [pending_other other, constructed, InitState.pending, InitState.pending, devicetree,
      deviceMem]
  · rw [devicetree]
    exact ⟨Or.inl, fun either => either.resolve_right other.1⟩

/-- The next `--hwio_devicetree` constructs the bus of the one before. -/
theorem initOption_devicetree (inside : state.Inside words) {optarg : WordPtr}
    (among : optarg.word < words.length)
    (returned : initOption makers (copyArgv words) .devicetree optarg state = (.ok (), after)) :
    Took words .devicetree (optarg.text words) state after := by
  unfold initOption at returned
  cases found : state.hwioDevicetree with
  | none =>
      simp only [found] at returned
      cases returned
      constructor
      · exact ⟨fun ptr same => Option.some.inj same ▸ among, inside.deviceMem⟩
      · intro rest
        rw [InitState.pending, InitState.pending, found]
        rfl
      · exact iff_of_true rfl (Or.inr rfl)
  | some path =>
      simp only [found] at returned
      have call := @newDevicetree_constructed _ makers state (copyArgv words) path state.hwioDeviceMem
      rcases made : newDevicetree makers (copyArgv words) path state.hwioDeviceMem state with
        ⟨result, between⟩
      rw [made] at returned call
      cases result with
      | error stop => cases returned
      | ok done =>
          cases returned
          have read : state.hwioDeviceMem.map (·.read (copyArgv words)) =
              (state.hwioDeviceMem.map (·.text words)).map some := by
            cases given : state.hwioDeviceMem with
            | none => rfl
            | some mem => exact congrArg some (read_copyArgv (inside.deviceMem mem given))
          constructor
          · constructor
            · exact fun ptr same => Option.some.inj same ▸ among
            · intro ptr same
              cases same
          · intro rest
            simp only at call ⊢
            rw [call, read_copyArgv (inside.devicetree path found), read, InitState.pending, found,
              List.append_assoc]
            rfl
          · exact iff_of_true rfl (Or.inr rfl)

theorem initOption_took (inside : state.Inside words) {opt : CliOption} {optarg : WordPtr}
    (among : optarg.word < words.length)
    (returned : initOption makers (copyArgv words) opt optarg state = (.ok (), after)) :
    Took words opt (optarg.text words) state after := by
  cases opt with
  | devicetree => exact initOption_devicetree inside among returned
  | config =>
      unfold initOption at returned
      rcases pushed : pushBuses (copyArgv words) makers.configLoad optarg state with
        ⟨result, between⟩
      rw [pushed] at returned
      cases result with
      | error stop => cases returned
      | ok done =>
          cases returned
          obtain ⟨devicetree, deviceMem, constructed⟩ := pushBuses_ok pushed
          exact .of_other (by decide) inside _ ⟨devicetree, deviceMem, constructed⟩
  | remote => exact .of_other (by decide) inside _ (pushBuses_ok returned)
  | json => exact .of_other (by decide) inside _ (pushBuses_ok returned)
  | deviceMem =>
      unfold initOption at returned
      cases given : state.hwioDeviceMem with
      | some mem =>
          simp only [given] at returned
          cases returned
      | none =>
          simp only [given] at returned
          cases returned
          constructor
          · exact ⟨inside.devicetree, fun ptr same => Option.some.inj same ▸ among⟩
          · intro rest
            rw [InitState.pending, InitState.pending]
            cases state.hwioDevicetree with
            | none | some path => rfl
          · exact ⟨Or.inl, fun either => either.resolve_right (by decide)⟩

/-- What all options do, from any state of the loop on. -/
theorem initLoop_constructed {parsed : List Parsed} (inside : state.Inside words)
    (among : ∀ opt optarg, .option opt optarg ∈ parsed → optarg.word < words.length)
    (returned : initLoop makers (copyArgv words) parsed state = (.ok (), after)) :
    state.constructed ++ state.pending words (parsed.filterMap (Parsed.given words)) =
        after.constructed ++ after.pending words [] ∧
      (after.hwioDevicetree.isSome = true ↔ state.hwioDevicetree.isSome = true ∨
        ∃ arg, (.devicetree, arg) ∈ parsed.filterMap (Parsed.given words)) := by
  induction parsed generalizing state with
  | nil =>
      cases returned
      exact ⟨rfl, by simp⟩
  | cons result rest inductionHypothesis =>
      have later : ∀ opt optarg, .option opt optarg ∈ rest → optarg.word < words.length :=
        fun opt optarg member => among opt optarg (List.mem_cons_of_mem _ member)
      cases result with
      | unknown => exact inductionHypothesis inside later returned
      | option opt optarg =>
          rw [initLoop] at returned
          rcases stepped : initOption makers (copyArgv words) opt optarg state with ⟨ends, between⟩
          rw [stepped] at returned
          cases ends with
          | error stop => cases returned
          | ok done =>
              have took := initOption_took inside (among opt optarg List.mem_cons_self) stepped
              obtain ⟨same, isSome⟩ := inductionHypothesis took.inside later returned
              have given : (Parsed.option opt optarg :: rest).filterMap (Parsed.given words) =
                  (opt, optarg.text words) :: rest.filterMap (Parsed.given words) := rfl
              rw [given, took.same, same, isSome, took.isSome, or_assoc]
              refine ⟨rfl, or_congr_right ?_⟩
              simp only [List.mem_cons, Prod.mk.injEq, exists_or]
              simp [eq_comm]

end Texts

/-! ## The buses that are constructed -/

theorem parseOptions_eq_ok {makers : BusMakers Bus} {posixlyCorrect : Bool} {words : List Text}
    {state : InitState Bus} :
    parseOptions makers posixlyCorrect words = (.ok (), state) ↔
      initLoop makers (copyArgv words) (getoptLong posixlyCorrect words) .start =
        (.ok (), state) := by
  unfold parseOptions
  rcases initLoop makers (copyArgv words) (getoptLong posixlyCorrect words) .start with
    ⟨stop | done, after⟩
  · simp [Except.mapError]
  · simp [Except.mapError]

/-- Behind the loop the copies are freed, and then the last devicetree bus is
constructed. -/
theorem hwioInit_constructed {makers : BusMakers Bus} {posixlyCorrect : Bool}
    {pointee : Nat → Text} {argv : List Nat} {state : InitState Bus}
    (parsing : parseOptions makers posixlyCorrect (argv.map pointee) = (.ok (), state)) :
    (hwioInit makers posixlyCorrect pointee argv).constructed =
      (consumeLeftover makers (freeAll (copyArgv (argv.map pointee))) state).2.constructed := by
  unfold hwioInit
  simp only [parsing]
  split
  · rfl
  · rfl

/-- On every command line on which option parsing does not throw, the devicetree
buses are constructed with exactly the texts given there just when no devicetree
bus is asked for: the last one is always constructed of freed copies. -/
theorem devicetree_texts_iff (makers : BusMakers Bus) (posixlyCorrect : Bool)
    {pointee : Nat → Text} {argv : List Nat}
    (parses : (parseOptions makers posixlyCorrect (argv.map pointee)).1 = .ok ()) :
    GetsGivenTexts makers posixlyCorrect pointee argv ↔
      ∀ arg, (.devicetree, arg) ∉ givenOptions posixlyCorrect (argv.map pointee) := by
  have among : ∀ opt optarg, .option opt optarg ∈ getoptLong posixlyCorrect (argv.map pointee) →
      optarg.word < (argv.map pointee).length := fun _ _ => getoptLong_inside
  rcases parsing : parseOptions makers posixlyCorrect (argv.map pointee) with ⟨result, state⟩
  rw [parsing] at parses
  obtain rfl := parses
  obtain ⟨same, isSome⟩ := initLoop_constructed InitState.start_inside among
    (parseOptions_eq_ok.mp parsing)
  have expected : readCalls (devicetreeArgs none none
      (givenOptions posixlyCorrect (argv.map pointee))) =
        state.constructed ++ state.pending (argv.map pointee) [] := same
  have asked : state.hwioDevicetree.isSome = true ↔
      ∃ arg, (.devicetree, arg) ∈ givenOptions posixlyCorrect (argv.map pointee) := by
    rw [isSome]
    exact or_iff_right (by simp [InitState.start])
  rw [← not_exists, ← asked, GetsGivenTexts, expected, hwioInit_constructed parsing]
  unfold consumeLeftover InitState.pending
  cases state.hwioDevicetree with
  | none => exact iff_of_true (List.append_nil _).symm (by simp)
  | some path =>
      refine iff_of_false ?_ (by simp)
      intro read
      rw [newDevicetree_constructed, read_freeAll] at read
      have call := List.append_cancel_left read
      cases state.hwioDeviceMem with
      | none | some mem =>
          have read := congrArg DevicetreeCall.path (List.cons.inj call).1
          cases read

/-- Every bus can be made. -/
def anyBus : BusMakers Unit :=
  ⟨fun _ => .ok [()], .ok [()], fun _ => .ok (), fun _ => .ok (), fun _ _ => .ok ()⟩

/-- `prog --hwio_json x.json`: there is no devicetree bus. -/
theorem json_gets_given_texts :
    GetsGivenTexts anyBus false (fun ptr => [text "prog", text "--hwio_json", text "x.json"].getD ptr [])
      [0, 1, 2] :=
  (@devicetree_texts_iff _ anyBus false _ [0, 1, 2] (by rfl)).mpr (by
    have given : givenOptions false ([0, 1, 2].map fun ptr =>
        [text "prog", text "--hwio_json", text "x.json"].getD ptr []) =
          [(.json, text "x.json")] := by decide
    rw [given]
    simp)

/-- For `prog --hwio_devicetree dt --hwio_device_mem mem` both texts are read after
they were freed. -/
theorem devicetree_reads_freed :
    let pointee := fun ptr => [text "prog", text "--hwio_devicetree", text "dt",
      text "--hwio_device_mem", text "mem"].getD ptr []
    let argv := [0, 1, 2, 3, 4]
    (parseOptions anyBus false (argv.map pointee)).1 = .ok () ∧
      givenOptions false (argv.map pointee) =
        [(.devicetree, text "dt"), (.deviceMem, text "mem")] ∧
      (hwioInit anyBus false pointee argv).constructed = [⟨none, some none⟩] ∧
      (hwioInit anyBus false pointee argv).bus = .error .readFreed ∧
      ¬ GetsGivenTexts anyBus false pointee argv := by
  intro pointee argv
  have constructed : (hwioInit anyBus false pointee argv).constructed = [⟨none, some none⟩] := by
    decide
  refine ⟨by rfl, by decide, constructed, by rfl, ?_⟩
  unfold GetsGivenTexts
  rw [constructed]
  decide

end Hwio
