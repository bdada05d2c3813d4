import Hwio.Bus.Json
import Hwio.Cli.Init
import Hwio.Library.Iteration

/-!
Contract: the configuration files of `hwio_cli.cpp`, and what `hwio_init` returns.

Owns `hwio_bus_from_ptree`, `hwio_config_load`, `hwio_load_default_config`, and
the command lines and files of which `hwio_init` makes its one bus.

Does not own the constructors of buses and the parser of JSON.
-/

namespace Hwio

open Library

variable {Bus : Type}

/-! ## Buses of a node -/

/-- The constructors of buses, without those that have a default. -/
structure BusConstructors (Bus : Type) where
  remote : Text → Except TreeFailure Bus
  json : Text → Except TreeFailure Bus
  devicetree : Text → Text → Except TreeFailure Bus

def quote : Text := [34]

/-- `n.get(key, "")`, which a definition of a bus must have. -/
def definedAttr (n : Ptree) (kind key : String) : Except Exn Text :=
  if n.get (text key) [] = [] then
    .error (wrongFormat (text "definition of " ++ text kind ++ text " bus in json missing " ++
      quote ++ text key ++ quote ++ text " attribute"))
  else .ok (n.get (text key) [])

/-- `hwio_bus_from_ptree` -/
def hwioBusFromPtree (constructors : BusConstructors Bus) (n : Ptree) :
    Except TreeFailure Bus := do
  let type ← calls (n.getChild (text "type"))
  if type.data = text "remote" then
    let host ← calls (definedAttr n "remote" "host")
    constructors.remote host
  else if type.data = text "json" then
    let file ← calls (definedAttr n "json" "file")
    constructors.json file
  else if type.data = text "devicetree" then
    let devicetree ← calls (definedAttr n "devicetree" "devicetree")
    let mem ← calls (definedAttr n "devicetree" "mem")
    constructors.devicetree devicetree mem
  else
    .error (.thrown (wrongFormat (text "unknown definition of bus (" ++ type.data ++ text ")")))

/-- One turn of the loop of `hwio_config_load`. -/
def configBus (constructors : BusConstructors Bus) (busNode : Text × Ptree) :
    Except TreeFailure Bus :=
  if busNode.1 ≠ [] then .error (.assertion (text "busNode.first.empty()"))
  else hwioBusFromPtree constructors busNode.2

/-- `hwio_config_load` of a tree -/
def hwioConfigLoadTree (constructors : BusConstructors Bus) (root : Ptree) :
    Except TreeFailure (List Bus) := do
  let buses ← calls (root.getChild (text "buses"))
  buses.children.mapM (configBus constructors)

/-! ## Files -/

/-- What `access`, `stat`, `read_json` and `getpwuid` return on a machine. -/
structure ConfigFiles where
  readable : Text → Bool
  present : Text → Bool
  readJson : Text → Except Exn Ptree
  homedir : Text

/-- `hwio_config_load` of a file -/
def hwioConfigLoad (files : ConfigFiles) (constructors : BusConstructors Bus) (fileName : Text) :
    Except TreeFailure (List Bus) :=
  if files.readable fileName = false then
    .error (.thrown ⟨true,
      text "Specified config file for hwio_config_load does not exists " ++ fileName⟩)
  else do
    let root ← calls (files.readJson fileName)
    hwioConfigLoadTree constructors root

/-- `config_names` -/
def configNames (files : ConfigFiles) : List Text :=
  [files.homedir ++ text "/.hwio/config.json", text "/etc/hwio/config.json"]

/-- `hwio_load_default_config` -/
def hwioLoadDefaultConfig (files : ConfigFiles) (constructors : BusConstructors Bus) :
    Except TreeFailure (List Bus) :=
  match (configNames files).find? files.present with
  | some name => hwioConfigLoad files constructors name
  | none => .error (.thrown ⟨true, text
      "[HWIO, cli] can not find any config file (~/.hwio/config.json or /etc/hwio/config.json)"⟩)

/-- How `hwio_init` makes buses. -/
def busMakers (files : ConfigFiles) (constructors : BusConstructors Bus) : BusMakers Bus where
  configLoad := hwioConfigLoad files constructors
  loadDefaultConfig := hwioLoadDefaultConfig files constructors
  remote := constructors.remote
  json := constructors.json
  devicetree := constructors.devicetree

/-! ## Descriptions of buses -/

/-- A node has a text. -/
def Ptree.Holds (n : Ptree) (key : String) (value : Text) : Prop :=
  ∃ child, n.getChild (text key) = .ok child ∧ child.data = value

/-- A node defines a bus. -/
inductive DefinesBus (constructors : BusConstructors Bus) (n : Ptree) (bus : Bus) : Prop
  | remote {host : Text} (type : n.Holds "type" (text "remote")) (some : host ≠ [])
      (attr : n.Holds "host" host) (made : constructors.remote host = .ok bus)
  | json {file : Text} (type : n.Holds "type" (text "json")) (some : file ≠ [])
      (attr : n.Holds "file" file) (made : constructors.json file = .ok bus)
  | devicetree {path mem : Text} (type : n.Holds "type" (text "devicetree"))
      (some : path ≠ [] ∧ mem ≠ []) (attr : n.Holds "devicetree" path ∧ n.Holds "mem" mem)
      (made : constructors.devicetree path mem = .ok bus)

/-- A tree defines these buses, in an array. -/
def DefinesBuses (constructors : BusConstructors Bus) (root : Ptree) (buses : List Bus) : Prop :=
  ∃ array, root.getChild (text "buses") = .ok array ∧
    List.Forall₂ (fun busNode bus => busNode.1 = [] ∧ DefinesBus constructors busNode.2 bus)
      array.children buses

/-- A file is read, and defines these buses. -/
def ConfigFiles.Define (files : ConfigFiles) (constructors : BusConstructors Bus) (name : Text)
    (buses : List Bus) : Prop :=
  files.readable name = true ∧ ∃ root, files.readJson name = .ok root ∧
    DefinesBuses constructors root buses

/-- The file of the default configuration: the one in the home directory if it
exists, even if it cannot be read. -/
def ConfigFiles.IsDefault (files : ConfigFiles) (name : Text) : Prop :=
  (files.present (files.homedir ++ text "/.hwio/config.json") = true ∧
      name = files.homedir ++ text "/.hwio/config.json") ∨
    (files.present (files.homedir ++ text "/.hwio/config.json") = false ∧
      files.present (text "/etc/hwio/config.json") = true ∧ name = text "/etc/hwio/config.json")

/-- The buses that an option on the command line adds; none can be made by
`--hwio_devicetree`. -/
inductive Adds (files : ConfigFiles) (constructors : BusConstructors Bus) :
    CliOption × Text → List Bus → Prop
  | config {name : Text} {buses : List Bus} (defined : files.Define constructors name buses) :
      Adds files constructors (.config, name) buses
  | remote {host : Text} {bus : Bus} (made : constructors.remote host = .ok bus) :
      Adds files constructors (.remote, host) [bus]
  | json {file : Text} {bus : Bus} (made : constructors.json file = .ok bus) :
      Adds files constructors (.json, file) [bus]
  | deviceMem {path : Text} : Adds files constructors (.deviceMem, path) []

/-- The default configuration is read without `--hwio_config`. -/
def DefaultBuses (files : ConfigFiles) (constructors : BusConstructors Bus)
    (given : List (CliOption × Text)) (buses : List Bus) : Prop :=
  if .config ∈ given.map Prod.fst then buses = []
  else ∃ name, files.IsDefault name ∧ files.Define constructors name buses

/-- The buses that come together from a command line. -/
def Gathers (files : ConfigFiles) (constructors : BusConstructors Bus)
    (given : List (CliOption × Text)) (buses : List Bus) : Prop :=
  (given.map Prod.fst).count .deviceMem ≤ 1 ∧
    ∃ added more, List.Forall₂ (Adds files constructors) given added ∧
      DefaultBuses files constructors given more ∧ buses = added.flatten ++ more

/-! ## What is loaded -/

section Loaded

variable {Result : Type} {constructors : BusConstructors Bus} {files : ConfigFiles}

theorem calls_eq_ok {called : Except Exn Result} {result : Result} :
    calls called = .ok result ↔ called = .ok result := by
  cases called with
  | ok value => simp only [calls, Except.ok.injEq]
  | error exn => simp only [calls, reduceCtorEq]

/-- An attribute that is missing and an empty one are the same. -/
theorem Ptree.get_eq_iff {n : Ptree} {key : String} {value : Text} (some : value ≠ []) :
    n.get (text key) [] = value ↔ n.Holds key value := by
  unfold Ptree.get Ptree.Holds
  cases n.getChild (text key) with
  | ok child => simp only [Except.ok.injEq, exists_eq_left']
  | error exn => simp [some.symm]

theorem definedAttr_eq_ok {n : Ptree} {kind key : String} {value : Text} :
    definedAttr n kind key = .ok value ↔ value ≠ [] ∧ n.Holds key value := by
  unfold definedAttr
  constructor
  · intro defined
    split at defined
    · cases defined
    · next some =>
      have same := Except.ok.inj defined
      rw [same] at some
      exact ⟨some, (Ptree.get_eq_iff some).mp same⟩
  · rintro ⟨some, holds⟩
    have same := (Ptree.get_eq_iff some).mpr holds
    rw [if_neg (same ▸ some), same]

theorem calls_definedAttr_eq_ok {n : Ptree} {kind key : String} {value : Text} :
    calls (definedAttr n kind key) = .ok value ↔ value ≠ [] ∧ n.Holds key value := by
  rw [calls_eq_ok, definedAttr_eq_ok]

theorem hwioBusFromPtree_eq_ok {n : Ptree} {bus : Bus} :
    hwioBusFromPtree constructors n = .ok bus ↔ DefinesBus constructors n bus := by
  unfold hwioBusFromPtree
  rw [bind_eq_ok_iff]
  have typed : ∀ type, calls (n.getChild (text "type")) = .ok type ↔
      n.getChild (text "type") = .ok type := fun _ => calls_eq_ok
  simp only [typed]
  constructor
  · rintro ⟨type, found, made⟩
    split at made
    next isRemote =>
      obtain ⟨host, defined, made⟩ := bind_eq_ok_iff.mp made
      obtain ⟨some, holds⟩ := calls_definedAttr_eq_ok.mp defined
      exact .remote ⟨type, found, isRemote⟩ some holds made
    next =>
      split at made
      next isJson =>
        obtain ⟨file, defined, made⟩ := bind_eq_ok_iff.mp made
        obtain ⟨some, holds⟩ := calls_definedAttr_eq_ok.mp defined
        exact .json ⟨type, found, isJson⟩ some holds made
      next =>
        split at made
        next isDevicetree =>
          obtain ⟨path, definedPath, made⟩ := bind_eq_ok_iff.mp made
          obtain ⟨mem, definedMem, made⟩ := bind_eq_ok_iff.mp made
          obtain ⟨somePath, holdsPath⟩ := calls_definedAttr_eq_ok.mp definedPath
          obtain ⟨someMem, holdsMem⟩ := calls_definedAttr_eq_ok.mp definedMem
          exact .devicetree ⟨type, found, isDevicetree⟩ ⟨somePath, someMem⟩
            ⟨holdsPath, holdsMem⟩ made
        next => cases made
  · intro defines
    cases defines with
    | remote type some attr made =>
        obtain ⟨child, found, isRemote⟩ := type
        refine ⟨child, found, ?_⟩
        rw [if_pos isRemote]
        exact bind_eq_ok_iff.mpr ⟨_, calls_definedAttr_eq_ok.mpr ⟨some, attr⟩, made⟩
    | json type some attr made =>
        obtain ⟨child, found, isJson⟩ := type
        refine ⟨child, found, ?_⟩
        rw [isJson, if_neg (by decide), if_pos rfl]
        exact bind_eq_ok_iff.mpr ⟨_, calls_definedAttr_eq_ok.mpr ⟨some, attr⟩, made⟩
    | devicetree type some attr made =>
        obtain ⟨child, found, isDevicetree⟩ := type
        refine ⟨child, found, ?_⟩
        rw [isDevicetree, if_neg (by decide), if_neg (by decide), if_pos rfl]
        exact bind_eq_ok_iff.mpr ⟨_, calls_definedAttr_eq_ok.mpr ⟨some.1, attr.1⟩,
          bind_eq_ok_iff.mpr ⟨_, calls_definedAttr_eq_ok.mpr ⟨some.2, attr.2⟩, made⟩⟩

theorem hwioConfigLoadTree_eq_ok {root : Ptree} {buses : List Bus} :
    hwioConfigLoadTree constructors root = .ok buses ↔ DefinesBuses constructors root buses := by
  have one : ∀ (busNode : Text × Ptree) (bus : Bus), configBus constructors busNode = .ok bus ↔
      busNode.1 = [] ∧ DefinesBus constructors busNode.2 bus := by
    intro busNode bus
    rw [← hwioBusFromPtree_eq_ok, configBus]
    by_cases element : busNode.1 = []
    · rw [if_neg (not_not.mpr element), iff_true_intro element, true_and]
    · rw [if_pos element]
      simp only [reduceCtorEq, element, false_and]
  unfold hwioConfigLoadTree DefinesBuses
  simp only [bind_eq_ok_iff, calls_eq_ok, mapM_eq_ok_iff, one]

theorem hwioConfigLoad_eq_ok {name : Text} {buses : List Bus} :
    hwioConfigLoad files constructors name = .ok buses ↔ files.Define constructors name buses := by
  unfold hwioConfigLoad ConfigFiles.Define
  cases files.readable name with
  | false => simp only [if_true, reduceCtorEq, false_and]
  | true =>
      rw [if_neg (by simp)]
      simp only [bind_eq_ok_iff, calls_eq_ok, hwioConfigLoadTree_eq_ok, true_and]

theorem hwioLoadDefaultConfig_eq_ok {buses : List Bus} :
    hwioLoadDefaultConfig files constructors = .ok buses ↔
      ∃ name, files.IsDefault name ∧ files.Define constructors name buses := by
  unfold hwioLoadDefaultConfig configNames ConfigFiles.IsDefault
  simp only [← hwioConfigLoad_eq_ok]
  cases home : files.present (files.homedir ++ text "/.hwio/config.json") with
  | true => simp [home]
  | false =>
      cases etc : files.present (text "/etc/hwio/config.json") with
      | true => simp [home, etc]
      | false => simp [home, etc]

end Loaded

/-! ## What the options add -/

section Options

variable {constructors : BusConstructors Bus} {files : ConfigFiles} {words : List Text}
  {state after : InitState Bus}

theorem pushBuses_eq_ok {make : Text → Except TreeFailure (List Bus)} {optarg : WordPtr}
    (inside : optarg.word < words.length) :
    pushBuses (copyArgv words) make optarg state = (.ok (), after) ↔
      ∃ buses, make (optarg.text words) = .ok buses ∧
        after = { state with buses := state.buses ++ buses } := by
  unfold pushBuses
  rw [read_copyArgv inside]
  simp only
  cases make (optarg.text words) with
  | ok buses => simp [eq_comm]
  | error exn => simp

/-- The state behind an option that adds some buses. -/
def InitState.adding (opt : CliOption) (optarg : WordPtr) (buses : List Bus)
    (state : InitState Bus) : InitState Bus :=
  { state with
    buses := state.buses ++ buses
    hwioDeviceMem := if opt = .deviceMem then some optarg else state.hwioDeviceMem
    configSpecified := state.configSpecified || opt = .config }

theorem adds_config_iff {name : Text} {buses : List Bus} :
    Adds files constructors (.config, name) buses ↔ files.Define constructors name buses := by
  refine ⟨fun adds => ?_, .config⟩
  cases adds with
  | config defined => exact defined

theorem adds_remote_iff {host : Text} {buses : List Bus} :
    Adds files constructors (.remote, host) buses ↔
      (constructors.remote host).map ([·]) = .ok buses := by
  constructor
  · intro adds
    cases adds with
    | remote made => rw [made, Except.map]
  · intro made
    cases remote : constructors.remote host with
    | error exn =>
        rw [remote] at made
        cases made
    | ok bus =>
        rw [remote] at made
        cases made
        exact .remote remote

theorem adds_json_iff {file : Text} {buses : List Bus} :
    Adds files constructors (.json, file) buses ↔
      (constructors.json file).map ([·]) = .ok buses := by
  constructor
  · intro adds
    cases adds with
    | json made => rw [made, Except.map]
  · intro made
    cases json : constructors.json file with
    | error exn =>
        rw [json] at made
        cases made
    | ok bus =>
        rw [json] at made
        cases made
        exact .json json

theorem adds_deviceMem_iff {path : Text} {buses : List Bus} :
    Adds files constructors (.deviceMem, path) buses ↔ buses = [] := by
  constructor
  · intro adds
    cases adds with
    | deviceMem => rfl
  · rintro rfl
    exact .deviceMem

/-- What an option other than `--hwio_devicetree` does. -/
theorem initOption_eq_ok {opt : CliOption} (other : opt ≠ .devicetree) {optarg : WordPtr}
    (inside : optarg.word < words.length) :
    initOption (busMakers files constructors) (copyArgv words) opt optarg state = (.ok (), after) ↔
      (opt = .deviceMem → state.hwioDeviceMem = none) ∧
        ∃ buses, Adds files constructors (opt, optarg.text words) buses ∧
          after = state.adding opt optarg buses := by
  cases opt with
  | devicetree => exact absurd rfl other
  | config =>
      have pushes := fun between => @pushBuses_eq_ok _ _ state between
        (busMakers files constructors).configLoad _ inside
      have added : ∀ buses, (busMakers files constructors).configLoad (optarg.text words) =
          .ok buses ↔ Adds files constructors (.config, optarg.text words) buses := fun buses => by
        rw [busMakers, hwioConfigLoad_eq_ok, adds_config_iff]
      simp only [added] at pushes
      unfold initOption
      rcases pushed : pushBuses (copyArgv words) (busMakers files constructors).configLoad optarg
        state with ⟨result, between⟩
      rw [pushed] at pushes
      cases result with
      | error stop =>
          refine iff_of_false (by simp) ?_
          rintro ⟨_, buses, adds, _⟩
          cases (pushes _).mpr ⟨buses, adds, rfl⟩
      | ok done =>
          constructor
          · intro returned
            obtain ⟨buses, adds, same⟩ := (pushes between).mp rfl
            cases returned
            exact ⟨by simp, buses, adds, by simp [same, InitState.adding]⟩
          · rintro ⟨_, buses, adds, same⟩
            cases (pushes _).mpr ⟨buses, adds, rfl⟩
            simp [same, InitState.adding]
  | remote =>
      rw [initOption, pushBuses_eq_ok inside]
      simp [adds_remote_iff, busMakers, InitState.adding]
  | json =>
      rw [initOption, pushBuses_eq_ok inside]
      simp [adds_json_iff, busMakers, InitState.adding]
  | deviceMem =>
      unfold initOption
      cases state.hwioDeviceMem with
      | some mem => simp
      | none => simp [adds_deviceMem_iff, InitState.adding, eq_comm]

/-- `--hwio_device_mem` is left for these options. -/
def InitState.MemsFit (given : List (CliOption × Text)) (state : InitState Bus) : Prop :=
  (given.map Prod.fst).count .deviceMem + (if state.hwioDeviceMem.isSome then 1 else 0) ≤ 1

/-- What some options have done. -/
structure Went (given : List (CliOption × Text)) (added : List (List Bus))
    (state after : InitState Bus) : Prop where
  buses : after.buses = state.buses ++ added.flatten
  devicetree : after.hwioDevicetree = state.hwioDevicetree
  config : after.configSpecified = true ↔
    state.configSpecified = true ∨ .config ∈ given.map Prod.fst

theorem memsFit_cons {opt : CliOption} {optarg : WordPtr} {arg : Text}
    {given : List (CliOption × Text)} {buses : List Bus} :
    state.MemsFit ((opt, arg) :: given) ↔ (opt = .deviceMem → state.hwioDeviceMem = none) ∧
      (state.adding opt optarg buses).MemsFit given := by
  unfold InitState.MemsFit InitState.adding
  by_cases isMem : opt = .deviceMem
  · cases state.hwioDeviceMem with
    | none => simp [isMem]
    | some mem => simp [isMem]
  · simp [isMem]

theorem went_cons {opt : CliOption} {optarg : WordPtr} {arg : Text}
    {given : List (CliOption × Text)} {buses : List Bus} {added : List (List Bus)}
    (went : Went given added (state.adding opt optarg buses) after) :
    Went ((opt, arg) :: given) (buses :: added) state after where
  buses := by
    rw [went.buses, List.flatten_cons, ← List.append_assoc]
    rfl
  devicetree := went.devicetree
  config := by
    have swapped : (opt = .config) = (.config = opt) := propext eq_comm
    rw [went.config, List.map_cons, List.mem_cons, InitState.adding, Bool.or_eq_true,
      decide_eq_true_iff, swapped, or_assoc]

/-- The loop comes to its end just when all options add their buses. -/
theorem initLoop_goes {parsed : List Parsed}
    (others : ∀ opt optarg, .option opt optarg ∈ parsed →
      opt ≠ .devicetree ∧ optarg.word < words.length) :
    (∀ {after}, initLoop (busMakers files constructors) (copyArgv words) parsed state =
        (.ok (), after) → state.MemsFit (parsed.filterMap (Parsed.given words)) ∧
          ∃ added, List.Forall₂ (Adds files constructors)
            (parsed.filterMap (Parsed.given words)) added ∧
            Went (parsed.filterMap (Parsed.given words)) added state after) ∧
      ∀ {added}, state.MemsFit (parsed.filterMap (Parsed.given words)) →
        List.Forall₂ (Adds files constructors) (parsed.filterMap (Parsed.given words)) added →
        ∃ after, initLoop (busMakers files constructors) (copyArgv words) parsed state =
          (.ok (), after) ∧ Went (parsed.filterMap (Parsed.given words)) added state after := by
  induction parsed generalizing state with
  | nil =>
      constructor
      · intro after returned
        cases returned
        refine ⟨?_, [], .nil, by simp, rfl, by simp⟩
        show 0 + (if state.hwioDeviceMem.isSome then 1 else 0) ≤ 1
        split
        · decide
        · decide
      · intro added _ adds
        cases adds
        exact ⟨state, rfl, by simp, rfl, by simp⟩
  | cons result rest inductionHypothesis =>
      have later : ∀ opt optarg, .option opt optarg ∈ rest →
          opt ≠ .devicetree ∧ optarg.word < words.length :=
        fun opt optarg member => others opt optarg (List.mem_cons_of_mem _ member)
      cases result with
      | unknown => exact inductionHypothesis later
      | option opt optarg =>
          obtain ⟨other, inside⟩ := others opt optarg List.mem_cons_self
          have given : (Parsed.option opt optarg :: rest).filterMap (Parsed.given words) =
              (opt, optarg.text words) :: rest.filterMap (Parsed.given words) := rfl
          rw [given]
          constructor
          · intro after returned
            rw [initLoop] at returned
            rcases stepped : initOption (busMakers files constructors) (copyArgv words) opt optarg
              state with ⟨ends, between⟩
            rw [stepped] at returned
            cases ends with
            | error stop => cases returned
            | ok done =>
                obtain ⟨free, buses, adds, same⟩ := (initOption_eq_ok other inside).mp stepped
                subst same
                obtain ⟨fits, added, addsRest, went⟩ := (inductionHypothesis later).1 returned
                exact ⟨memsFit_cons.mpr ⟨free, fits⟩, buses :: added, .cons adds addsRest,
                  went_cons went⟩
          · intro added fits adds
            cases adds with
            | cons addsFirst addsRest =>
                obtain ⟨free, fits⟩ := memsFit_cons.mp fits
                have stepped := (@initOption_eq_ok _ _ _ _ state _ _ other _ inside).mpr
                  ⟨free, _, addsFirst, rfl⟩
                obtain ⟨after, returned, went⟩ := (inductionHypothesis later).2 fits addsRest
                refine ⟨after, ?_, went_cons went⟩
                rw [initLoop, stepped]
                exact returned

end Options

/-! ## The bus of `hwio_init` -/

/-- The buses of the default configuration, where it is read. -/
def chosenConfig (makers : BusMakers Bus) (state : InitState Bus) : Except TreeFailure (List Bus) :=
  if state.configSpecified then .ok [] else makers.loadDefaultConfig

theorem chooseBus_returns_iff {makers : BusMakers Bus} {state : InitState Bus} {bus : Bus} :
    chooseBus makers state = .ok bus ↔
      ∃ more, chosenConfig makers state = .ok more ∧ state.buses ++ more = [bus] := by
  unfold chooseBus
  rw [show (if state.configSpecified then .ok [] else makers.loadDefaultConfig) =
    chosenConfig makers state from rfl]
  cases chosenConfig makers state with
  | error exn => simp
  | ok more =>
      simp only [Except.ok.injEq, exists_eq_left']
      rcases state.buses ++ more with _ | ⟨first, _ | ⟨second, rest⟩⟩
      · simp
      · simp
      · simp

theorem chooseBus_aborts_iff {makers : BusMakers Bus} {state : InitState Bus} :
    chooseBus makers state = .error .aborted ↔
      ∃ more, chosenConfig makers state = .ok more ∧ 1 < (state.buses ++ more).length := by
  unfold chooseBus
  rw [show (if state.configSpecified then .ok [] else makers.loadDefaultConfig) =
    chosenConfig makers state from rfl]
  cases chosenConfig makers state with
  | error exn => simp
  | ok more =>
      simp only [Except.ok.injEq, exists_eq_left']
      rcases state.buses ++ more with _ | ⟨first, _ | ⟨second, rest⟩⟩
      · simp
      · simp
      · simp

/-! ## The assertion is not in the loop -/

section NotAborted

variable (makers : BusMakers Bus) (copies : List (Option Text)) (state : InitState Bus)

theorem pushBuses_not_aborted (make : Text → Except TreeFailure (List Bus)) (optarg : WordPtr) :
    (pushBuses copies make optarg state).1 ≠ .error .aborted := by
  unfold pushBuses
  split
  · simp
  · split
    · simp
    · simp

theorem newDevicetree_not_aborted (path : WordPtr) (mem : Option WordPtr) :
    (newDevicetree makers copies path mem state).1 ≠ .error .aborted := by
  unfold newDevicetree
  simp only
  split
  · split
    · simp
    · simp
  · simp

theorem initOption_not_aborted (opt : CliOption) (optarg : WordPtr) :
    (initOption makers copies opt optarg state).1 ≠ .error .aborted := by
  cases opt with
  | remote | json => exact pushBuses_not_aborted copies state _ optarg
  | config =>
      have pushed := pushBuses_not_aborted copies state makers.configLoad optarg
      unfold initOption
      generalize pushBuses copies makers.configLoad optarg state = ran at pushed ⊢
      rcases ran with ⟨stop | done, between⟩
      · exact pushed
      · simp
  | deviceMem =>
      unfold initOption
      cases state.hwioDeviceMem with
      | none | some mem => simp
  | devicetree =>
      unfold initOption
      cases state.hwioDevicetree with
      | none => simp
      | some path =>
          have made := newDevicetree_not_aborted makers copies state path state.hwioDeviceMem
          simp only
          generalize newDevicetree makers copies path state.hwioDeviceMem state = ran at made ⊢
          rcases ran with ⟨stop | done, between⟩
          · exact made
          · simp

theorem initLoop_not_aborted (parsed : List Parsed) :
    (initLoop makers copies parsed state).1 ≠ .error .aborted := by
  induction parsed generalizing state with
  | nil => simp [initLoop]
  | cons result rest inductionHypothesis =>
      cases result with
      | unknown => exact inductionHypothesis state
      | option opt optarg =>
          have stepped := initOption_not_aborted makers copies state opt optarg
          rw [initLoop]
          generalize initOption makers copies opt optarg state = ran at stepped ⊢
          rcases ran with ⟨stop | done, between⟩
          · exact stepped
          · exact inductionHypothesis between

/-- What is caught and thrown again is no assertion. -/
theorem rethrown_not_aborted {stop : InitStop} (other : stop ≠ .aborted) :
    stop.rethrown ≠ .aborted := by
  rcases stop with (expression | exn) | _ | _
  · exact other
  · simp [InitStop.rethrown]
  · exact other
  · exact other

theorem parseOptions_not_aborted (posixlyCorrect : Bool) (words : List Text) :
    (parseOptions makers posixlyCorrect words).1 ≠ .error .aborted := by
  have stays := initLoop_not_aborted makers (copyArgv words) .start
    (getoptLong posixlyCorrect words)
  unfold parseOptions
  generalize initLoop makers (copyArgv words) (getoptLong posixlyCorrect words) .start = ran
    at stays ⊢
  rcases ran with ⟨stop | done, after⟩
  · intro aborts
    exact rethrown_not_aborted (fun same => stays (congrArg _ same)) (Except.error.inj aborts)
  · simp [Except.mapError]

end NotAborted

/-! ## How `hwio_init` ends -/

variable {files : ConfigFiles} {constructors : BusConstructors Bus} {posixlyCorrect : Bool}

/-- The options add buses just when their parsing ends, without one to be read
from a devicetree. -/
theorem gathers_iff {words : List Text} {buses : List Bus} :
    Gathers files constructors (givenOptions posixlyCorrect words) buses ↔
      ∃ state, parseOptions (busMakers files constructors) posixlyCorrect words = (.ok (), state) ∧
        state.hwioDevicetree = none ∧ ∃ more,
          chosenConfig (busMakers files constructors) state = .ok more ∧
            buses = state.buses ++ more := by
  have among : ∀ opt optarg, .option opt optarg ∈ getoptLong posixlyCorrect words →
      optarg.word < words.length := fun _ _ => getoptLong_inside
  have others : (∀ arg, (.devicetree, arg) ∉ givenOptions posixlyCorrect words) →
      ∀ opt optarg, .option opt optarg ∈ getoptLong posixlyCorrect words →
        opt ≠ .devicetree ∧ optarg.word < words.length := by
    intro none opt optarg member
    refine ⟨?_, among opt optarg member⟩
    rintro rfl
    exact none _ (List.mem_filterMap.mpr ⟨_, member, rfl⟩)
  have default : ∀ {state : InitState Bus} {more : List Bus},
      (state.configSpecified = true ↔
        .config ∈ (givenOptions posixlyCorrect words).map Prod.fst) →
      (chosenConfig (busMakers files constructors) state = .ok more ↔
        DefaultBuses files constructors (givenOptions posixlyCorrect words) more) := by
    intro state more same
    unfold chosenConfig DefaultBuses
    by_cases specified : state.configSpecified = true
    · rw [if_pos specified, if_pos (same.mp specified), Except.ok.injEq, eq_comm]
    · rw [if_neg specified, if_neg fun member => specified (same.mpr member), busMakers,
        hwioLoadDefaultConfig_eq_ok]
  have starts : ∀ {given : List (CliOption × Text)},
      (InitState.start : InitState Bus).MemsFit given ↔
        (given.map Prod.fst).count .deviceMem ≤ 1 := Iff.rfl
  constructor
  · rintro ⟨fits, added, more, adds, defaults, rfl⟩
    have none : ∀ arg, (.devicetree, arg) ∉ givenOptions posixlyCorrect words := by
      intro arg member
      obtain ⟨index, inside, same⟩ := List.getElem_of_mem member
      have adding := adds.get inside (adds.length_eq ▸ inside)
      rw [List.get_eq_getElem, same] at adding
      cases adding
    obtain ⟨state, returned, went⟩ := (initLoop_goes (others none)).2 (starts.mpr fits) adds
    refine ⟨state, parseOptions_eq_ok.mpr returned, went.devicetree, more,
      (default ?_).mpr defaults, ?_⟩
    · rw [went.config]
      exact or_iff_right (by simp [InitState.start])
    · rw [went.buses]
      rfl
  · rintro ⟨state, parsed, none, more, chosen, rfl⟩
    have returned := parseOptions_eq_ok.mp parsed
    have asked := (initLoop_constructed InitState.start_inside among returned).2
    rw [none] at asked
    have without : ∀ arg, (.devicetree, arg) ∉ givenOptions posixlyCorrect words := by
      intro arg member
      cases asked.mpr (Or.inr ⟨arg, member⟩)
    obtain ⟨fits, added, adds, went⟩ := (initLoop_goes (others without)).1 returned
    refine ⟨starts.mp fits, added, more, adds, (default ?_).mp chosen, ?_⟩
    · rw [went.config]
      exact or_iff_right (by simp [InitState.start])
    · rw [went.buses]
      rfl

/-- The last devicetree bus cannot be made of texts that were freed. -/
theorem consumeLeftover_freed {makers : BusMakers Bus} {state : InitState Bus} {path : WordPtr}
    (left : state.hwioDevicetree = some path) (copies : List (Option Text)) :
    (consumeLeftover makers (freeAll copies) state).1 = .error .readFreed := by
  unfold consumeLeftover newDevicetree
  simp only [left, read_freeAll]

/-- How `hwio_init` ends, where it comes to choose the bus. -/
theorem hwioInit_chooses {makers : BusMakers Bus} {pointee : Nat → Text} {argv : List Nat}
    {ended : Except InitStop Bus} (chosen : (∃ bus, ended = .ok bus) ∨ ended = .error .aborted) :
    (hwioInit makers posixlyCorrect pointee argv).bus = ended ↔
      ∃ state, parseOptions makers posixlyCorrect (argv.map pointee) = (.ok (), state) ∧
        state.hwioDevicetree = none ∧ chooseBus makers state = ended := by
  have notThrown : ∀ stop, (.error stop : Except InitStop Bus) = ended → stop = .aborted := by
    rintro stop rfl
    rcases chosen with ⟨bus, other⟩ | aborts
    · cases other
    · exact Except.error.inj aborts
  unfold hwioInit
  simp only
  rcases parsing : parseOptions makers posixlyCorrect (argv.map pointee) with ⟨stop | done, state⟩
  · refine iff_of_false ?_ (by simp)
    intro ends
    cases notThrown stop ends
    exact parseOptions_not_aborted makers posixlyCorrect _ (congrArg Prod.fst parsing)
  · simp only [Prod.mk.injEq, true_and, exists_eq_left']
    cases left : state.hwioDevicetree with
    | none => simp [consumeLeftover, left]
    | some path =>
        refine iff_of_false ?_ (by simp)
        rw [consumeLeftover_freed left]
        intro ends
        cases notThrown _ ends

/-- `hwio_init` returns a bus just when the options on the command line and, without
`--hwio_config`, the default configuration add this bus and no other; none may be
a `--hwio_devicetree`, and at most one a `--hwio_device_mem`.  Where they add more
buses an assertion fails. -/
theorem init_returns_iff (files : ConfigFiles) (constructors : BusConstructors Bus)
    (posixlyCorrect : Bool) (pointee : Nat → Text) (argv : List Nat) :
    (∀ bus, (hwioInit (busMakers files constructors) posixlyCorrect pointee argv).bus = .ok bus ↔
        Gathers files constructors (givenOptions posixlyCorrect (argv.map pointee)) [bus]) ∧
      ((hwioInit (busMakers files constructors) posixlyCorrect pointee argv).bus =
          .error .aborted ↔
        ∃ buses, Gathers files constructors (givenOptions posixlyCorrect (argv.map pointee))
          buses ∧ 1 < buses.length) := by
  constructor
  · intro bus
    rw [hwioInit_chooses (Or.inl ⟨bus, rfl⟩)]
    simp only [gathers_iff, chooseBus_returns_iff]
    constructor
    · rintro ⟨state, parsed, none, more, chosen, only⟩
      exact ⟨state, parsed, none, more, chosen, only.symm⟩
    · rintro ⟨state, parsed, none, more, chosen, only⟩
      exact ⟨state, parsed, none, more, chosen, only.symm⟩
  · rw [hwioInit_chooses (Or.inr rfl)]
    simp only [gathers_iff, chooseBus_aborts_iff]
    constructor
    · rintro ⟨state, parsed, none, more, chosen, several⟩
      exact ⟨_, ⟨state, parsed, none, more, chosen, rfl⟩, several⟩
    · rintro ⟨buses, ⟨state, parsed, none, more, chosen, rfl⟩, several⟩
      exact ⟨state, parsed, none, more, chosen, several⟩

end Hwio
