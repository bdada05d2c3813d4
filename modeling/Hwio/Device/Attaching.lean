import Hwio.Device.Mmap
import Hwio.Library.Runs

/-!
Contract: how a device of `hwio_device_mmap.cpp` gets its mapping.

Owns the two constructors, calls of `attach` one after the other with any
outcomes of `open` and `mmap`, and when these leave a device mapped or as it was.

Does not own accesses.
-/

namespace Hwio

open Library

variable {World : Type}

/-- What the system calls of an `attach` give: a descriptor of `open` or none,
`strerror(errno)`, and whether `mmap` succeeds. -/
structure AttachOutcome where
  opened : Option Nat
  strerror : Text
  maps : Bool
deriving DecidableEq, Repr

/-- What `open` returns. -/
def AttachOutcome.fd (outcome : AttachOutcome) : Int := outcome.opened.elim (-1) Int.ofNat

/-- A file that is mapped, from a page on. -/
structure Mapping where
  file : Text
  pageAddr : UInt32
  length : Nat
deriving DecidableEq, Repr

/-- `fd` and `dev_mem`, where `none` is `MAP_FAILED`. -/
structure AttachState where
  fd : Int
  devMem : Option Mapping
deriving DecidableEq, Repr

namespace AttachState

/-- A device that was constructed. -/
def constructed : AttachState := ⟨-1, none⟩

/-- Nothing is mapped, and the next `attach` opens the file again. -/
def Unattached (state : AttachState) : Prop := state.fd < 0 ∧ state.devMem = none

/-- What is mapped stays so: the next `attach` does nothing. -/
def Attached (state : AttachState) (mapping : Mapping) : Prop :=
  0 ≤ state.fd ∧ state.devMem = some mapping

end AttachState

/-- `hwio_device_mmap::DEFAULT_MEM_PATH` -/
def defaultMemPath : Text := text "/dev/mem"

/-- The constructor with one spec and the one with several. -/
inductive Constructor where
  | ofSpec
  | ofSpecs
deriving DecidableEq, Repr

namespace HwioDeviceMmap

/-- The constructor with one spec calls the other one without its path. -/
def newOfSpec (pageSize baseAddr size : UInt32) (_memPath : Text) : HwioDeviceMmap :=
  new pageSize baseAddr size defaultMemPath

/-- The device that a constructor makes. -/
def make (pageSize baseAddr size : UInt32) (memPath : Text) : Constructor → HwioDeviceMmap
  | .ofSpec => newOfSpec pageSize baseAddr size memPath
  | .ofSpecs => new pageSize baseAddr size memPath

/-- The mapping that a device is for, of the file with a path. -/
def mappingOf (mmap : HwioDeviceMmap) (path : Text) : Mapping :=
  ⟨cstr path, mmap.pageAddr, mmap.addrSpaceSize⟩

/-- `hwio_device_mmap::attach` with given outcomes of its system calls. -/
def attachWith (mmap : HwioDeviceMmap) (outcome : AttachOutcome) (state : AttachState) :
    Option Exn × AttachState :=
  if state.fd < 0 then
    if outcome.fd ≤ 0 then
      (some ⟨true, text "Can not open memory file: " ++ mmap.memFileName ++ text ", " ++
        outcome.strerror⟩, { state with fd := outcome.fd })
    -- what is mapped is the file that was just opened
    else if outcome.maps then (none, ⟨outcome.fd, some (mmap.mappingOf mmap.memFileName)⟩)
    else (some ⟨true, text "Can not mmap memory"⟩, ⟨outcome.fd, none⟩)
  else (none, state)

/-! ## The calls of the server -/

/-- The outcomes that the system calls have in a world. -/
def outcomeIn (mmap : HwioDeviceMmap) (sys : MmapSys World) (world : World) : AttachOutcome :=
  let called := sys.openFile world
  { opened := if called.1.1 < 0 then none else some called.1.1.toNat
    strerror := called.1.2
    maps := (sys.mmap called.1.1 mmap.addrSpaceSize mmap.pageAddr called.2).1 }

/-- What is known of a mapping to the server is what is known of it here. -/
def Shows (seen : MmapState) (state : AttachState) : Prop :=
  seen.fd = state.fd ∧ seen.isMapped = state.devMem.isSome

/-- `attach` as the server calls it is `attach` with the outcomes of the world. -/
theorem attach_shows (mmap : HwioDeviceMmap) (sys : MmapSys World) (dev : DevPtr)
    {observed : Observed World} {state : AttachState}
    (documented : -1 ≤ (sys.openFile observed.world).1.1)
    (before : Shows (observed.state dev) state) :
    let result := mmap.attachWith (mmap.outcomeIn sys observed.world) state
    (mmap.attach sys dev observed).1 = result.1 ∧
      Shows ((mmap.attach sys dev observed).2.state dev) result.2 := by
  obtain ⟨sameFd, sameMem⟩ := before
  have returned : (mmap.outcomeIn sys observed.world).fd = (sys.openFile observed.world).1.1 := by
    unfold AttachOutcome.fd outcomeIn
    by_cases negative : (sys.openFile observed.world).1.1 < 0
    · simp only [if_pos negative, Option.elim_none]
      omega
    · simp only [if_neg negative, Option.elim_some]
      exact Int.toNat_of_nonneg (Int.not_lt.mp negative)
  have mapped : (mmap.outcomeIn sys observed.world).maps =
      (sys.mmap (sys.openFile observed.world).1.1 mmap.addrSpaceSize mmap.pageAddr
        (sys.openFile observed.world).2).1 := rfl
  have failed : (mmap.outcomeIn sys observed.world).strerror =
      (sys.openFile observed.world).1.2 := rfl
  unfold attach attachWith
  rw [sameFd, returned, mapped, failed]
  by_cases closed : state.fd < 0
  · simp only [if_pos closed]
    by_cases refused : (sys.openFile observed.world).1.1 ≤ 0
    · simp only [if_pos refused, Function.update_self, true_and]
      exact ⟨rfl, sameMem⟩
    · simp only [if_neg refused]
      cases (sys.mmap (sys.openFile observed.world).1.1 mmap.addrSpaceSize mmap.pageAddr
        (sys.openFile observed.world).2).1 with
      | true => exact ⟨rfl, by simp [Shows]⟩
      | false => exact ⟨rfl, by simp [Shows]⟩
  · simp only [if_neg closed, true_and]
    exact ⟨sameFd, sameMem⟩

/-- A call of `attach` by the server, in the world of its time. -/
def attachIn (mmap : HwioDeviceMmap) (sys : MmapSys World) (dev : DevPtr) (world : World)
    (observed : Observed World) : Option Exn × Observed World :=
  mmap.attach sys dev { observed with world := world }

/-! ## Calls one after the other -/

/-- A call that returned left the device with the mapping, and one that threw
left it unattached. -/
def Sound (mapping : Mapping) (thrown : Option Exn) (state : AttachState) : Prop :=
  (thrown = none → state.devMem = some mapping) ∧ (thrown ≠ none → state.Unattached)

/-- It is so as far as the server knows of the mapping. -/
def ServedSound (dev : DevPtr) (thrown : Option Exn) (observed : Observed World) : Prop :=
  (thrown = none → (observed.state dev).isMapped = true) ∧
    (thrown ≠ none → (observed.state dev).fd < 0 ∧ (observed.state dev).isMapped = false)

variable {mmap : HwioDeviceMmap}

theorem attached_sound {mapping : Mapping} (outcomes : List AttachOutcome) {state : AttachState}
    (attached : state.Attached mapping) :
    Always mmap.attachWith (Sound mapping) outcomes state := by
  have each : ∀ outcome (state : AttachState), state.Attached mapping →
      Sound mapping (mmap.attachWith outcome state).1 (mmap.attachWith outcome state).2 ∧
        (mmap.attachWith outcome state).2.Attached mapping := by
    intro outcome state attached
    have returned : mmap.attachWith outcome state = (none, state) :=
      if_neg (Int.not_lt.mpr attached.1)
    rw [returned]
    exact ⟨⟨fun _ => attached.2, absurd rfl⟩, attached⟩
  exact Always.of_invariant mmap.attachWith each outcomes attached

/-- Where no file is opened, the device is as it was constructed. -/
theorem attachWith_refused {outcome : AttachOutcome} (refused : outcome.opened = none) :
    ∃ exn, mmap.attachWith outcome .constructed = (some exn, .constructed) := by
  have negative : outcome.fd = -1 := by
    rw [AttachOutcome.fd, refused]
    rfl
  rw [attachWith, negative, if_pos (by decide), if_pos (by decide)]
  exact ⟨_, rfl⟩

/-- The device gets the mapping of a path when the descriptor is positive, the
file is mapped, and the file is the one with the path. -/
theorem attachWith_opened {outcome : AttachOutcome} {fd : Nat} (opened : outcome.opened = some fd)
    (path : Text) :
    let result := mmap.attachWith outcome .constructed
    (Sound (mmap.mappingOf path) result.1 result.2 ↔
        (outcome.opened ≠ some 0 ∧ outcome.maps = true) ∧ cstr mmap.memFileName = cstr path) ∧
      (Sound (mmap.mappingOf path) result.1 result.2 → result.2.Attached (mmap.mappingOf path)) := by
  have returned : outcome.fd = fd := by
    rw [AttachOutcome.fd, opened]
    rfl
  have positive : 0 ≤ (fd : Int) := Int.natCast_nonneg fd
  intro result
  unfold result
  rw [attachWith, returned, if_pos (by decide), opened]
  by_cases zero : fd = 0
  · subst zero
    rw [if_pos (by decide)]
    simp [Sound, AttachState.Unattached]
  · rw [if_neg (by omega)]
    by_cases mapped : outcome.maps = true
    · rw [if_pos mapped]
      simp [Sound, mappingOf, AttachState.Attached, zero, mapped]
    · rw [if_neg mapped]
      simp [Sound, AttachState.Unattached, mapped, Int.not_lt.mpr positive]

/-- The first `open` that succeeds decides: before it nothing changes, and
behind it nothing is tried again. -/
theorem constructed_sound_iff (path : Text) (outcomes : List AttachOutcome) :
    Always mmap.attachWith (Sound (mmap.mappingOf path)) outcomes .constructed ↔
      ∀ outcome, outcomes.find? (·.opened.isSome) = some outcome →
        (outcome.opened ≠ some 0 ∧ outcome.maps = true) ∧
          cstr mmap.memFileName = cstr path := by
  induction outcomes with
  | nil => exact iff_of_true trivial (by simp)
  | cons outcome rest inductionHypothesis =>
      cases opened : outcome.opened with
      | none =>
          obtain ⟨exn, threw⟩ := @attachWith_refused mmap outcome opened
          have unattached : Sound (mmap.mappingOf path) (some exn) .constructed :=
            ⟨fun returned => absurd returned (by simp), fun _ => ⟨by decide, rfl⟩⟩
          rw [Always, threw, and_iff_right unattached, inductionHypothesis,
            List.find?_cons_of_neg (by simp [opened])]
      | some fd =>
          obtain ⟨sound_iff, attached⟩ := @attachWith_opened mmap outcome fd opened path
          rw [Always, List.find?_cons_of_pos (by simp [opened])]
          simp only [Option.some.injEq, forall_eq']
          rw [← sound_iff, and_iff_left_of_imp]
          exact fun sound => attached_sound rest (attached sound)

/-- A constructor makes a device for its path when it has one spec only for the
default path. -/
theorem make_path_iff (pageSize baseAddr size : UInt32) (memPath : Text)
    (constructor : Constructor) :
    cstr (make pageSize baseAddr size memPath constructor).memFileName = cstr memPath ↔
      constructor = .ofSpecs ∨ cstr memPath = defaultMemPath := by
  cases constructor with
  | ofSpec =>
      have kept : cstr defaultMemPath = defaultMemPath := by decide
      change cstr defaultMemPath = cstr memPath ↔ _
      rw [kept]
      simp [eq_comm]
  | ofSpecs => simp [make, new]

/-- What is mapped is the file of the device. -/
theorem attachWith_own (outcome : AttachOutcome) {state : AttachState}
    (own : ∀ mapping, state.devMem = some mapping → mapping = mmap.mappingOf mmap.memFileName) :
    ∀ mapping, (mmap.attachWith outcome state).2.devMem = some mapping →
      mapping = mmap.mappingOf mmap.memFileName := by
  unfold attachWith
  split
  · split
    · exact own
    · split
      · exact fun mapping same => (Option.some.inj same).symm
      · exact fun mapping none => nomatch none
  · exact own

/-- Calls by the server are sound just when those with the outcomes of their worlds
are. -/
theorem served_sound_iff (sys : MmapSys World) (dev : DevPtr) {worlds : List World}
    (documented : ∀ world ∈ worlds, -1 ≤ (sys.openFile world).1.1) {observed : Observed World}
    (constructed : observed.state dev = ⟨-1, false⟩) :
    Always (mmap.attachIn sys dev) (ServedSound dev) worlds observed ↔
      Always mmap.attachWith (Sound (mmap.mappingOf mmap.memFileName))
        (worlds.map (mmap.outcomeIn sys)) .constructed := by
  apply @always_map_iff _ _ _ _ _ _ _ _ (fun (observed : Observed World) state =>
    Shows (observed.state dev) state ∧ ∀ mapping, state.devMem = some mapping →
      mapping = mmap.mappingOf mmap.memFileName)
  · rintro thrown observed ⟨fd, devMem⟩ ⟨⟨sameFd, sameMem⟩, own⟩
    simp only at sameFd sameMem own
    unfold ServedSound Sound AttachState.Unattached
    rw [sameFd, sameMem]
    cases devMem with
    | none => simp
    | some mapping =>
        obtain rfl := own mapping rfl
        simp
  · rintro world member observed state ⟨shows, own⟩
    have called := @attach_shows _ mmap sys dev { observed with world := world } _
      (documented world member) shows
    exact ⟨called.1, called.2, attachWith_own _ own⟩
  · rw [constructed]
    exact ⟨⟨rfl, rfl⟩, fun mapping none => nomatch none⟩

/-- In every sequence of calls of `attach`, each call maps the file of the given
path or leaves the device unattached, just when the first `open` that succeeds
gives a positive descriptor that is mapped, of a device that kept the path.  For
the server, which does not know the path, it is so in whatever worlds it calls. -/
theorem attach_sound_iff (constructor : Constructor) (pageSize baseAddr size : UInt32)
    (memPath : Text) :
    let mmap := make pageSize baseAddr size memPath constructor
    (∀ outcomes, Always mmap.attachWith (Sound (mmap.mappingOf memPath)) outcomes .constructed ↔
      ∀ outcome, outcomes.find? (·.opened.isSome) = some outcome →
        (outcome.opened ≠ some 0 ∧ outcome.maps = true) ∧
          (constructor = .ofSpecs ∨ cstr memPath = defaultMemPath)) ∧
    ∀ (sys : MmapSys World) (dev : DevPtr) (worlds : List World) (observed : Observed World),
      (∀ world ∈ worlds, -1 ≤ (sys.openFile world).1.1) → observed.state dev = ⟨-1, false⟩ →
        (Always (mmap.attachIn sys dev) (ServedSound dev) worlds observed ↔
          ∀ outcome, (worlds.map (mmap.outcomeIn sys)).find? (·.opened.isSome) = some outcome →
            outcome.opened ≠ some 0 ∧ outcome.maps = true) := by
  intro mmap
  constructor
  · intro outcomes
    rw [constructed_sound_iff, make_path_iff]
  · intro sys dev worlds observed documented constructed
    rw [served_sound_iff sys dev documented constructed, constructed_sound_iff]
    simp only [and_true]

/-- The file of a device is opened and mapped at once. -/
theorem uio_attached :
    let mmap := make 4096 0x43C00000 4096 (text "/dev/uio0") .ofSpecs
    let sys : MmapSys Unit := ⟨fun _ => ((3, []), ()), fun _ _ _ _ => (true, ())⟩
    Always (mmap.attachIn sys 0) (ServedSound 0) [(), ()] ⟨(), fun _ => ⟨-1, false⟩, []⟩ := by
  intro mmap sys
  refine ((attach_sound_iff .ofSpecs 4096 0x43C00000 4096 (text "/dev/uio0")).2 sys 0 [(), ()]
    ⟨(), fun _ => ⟨-1, false⟩, []⟩ (by decide) rfl).mpr ?_
  intro outcome found
  cases found
  decide

/-- After a failed `mmap` the next `attach` returns with nothing mapped, and a
device with one spec maps the default file. -/
theorem unmapped_after_failed_mmap :
    let uio := text "/dev/uio0"
    let mmap := make 4096 0x43C00000 4096 uio .ofSpecs
    let failed := (mmap.attachWith ⟨some 3, [], false⟩ .constructed).2
    (mmap.attachWith ⟨some 4, [], true⟩ failed = (none, failed) ∧ failed.devMem = none) ∧
      ¬ Always mmap.attachWith (Sound (mmap.mappingOf uio))
        [⟨some 3, [], false⟩, ⟨some 4, [], true⟩] .constructed ∧
      ((make 4096 0x43C00000 4096 uio .ofSpec).attachWith ⟨some 3, [], true⟩ .constructed).2.devMem =
        some ⟨text "/dev/mem", 0x43C00000, 8192⟩ := by
  refine ⟨by decide, ?_, by decide⟩
  rintro ⟨_, ⟨mapped, _⟩, _⟩
  exact absurd (mapped rfl) (by decide)

end HwioDeviceMmap

end Hwio
