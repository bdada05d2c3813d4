import Hwio.Server.Msg

/-!
Contract: what the lookup on the buses and the registration of its result leave.

Owns the devices that a request found, the frame conditions of the two loops of
`device_lookup_resp`, its outcomes, and the extent of the id list in `tx_buffer`.

Does not own which id a device gets.
-/

namespace Hwio

open Library

variable {World : Type}

/-! ## The lookup -/

/-- The devices that the lookups among some calls returned, in order. -/
def foundIn (calls : List Call) : List DevPtr :=
  calls.flatMap fun
    | .find _ _ (some found) => found
    | _ => []

@[simp] theorem foundIn_nil : foundIn [] = [] := rfl

@[simp] theorem foundIn_append (first second : List Call) :
    foundIn (first ++ second) = foundIn first ++ foundIn second :=
  List.flatMap_append

/-- The calls that only attach a device. -/
def OnlyAttach (calls : List Call) : Prop := ∀ call ∈ calls, ∃ dev, call = .attach dev

theorem OnlyAttach.foundIn {calls : List Call} (attaches : OnlyAttach calls) :
    foundIn calls = [] := by
  refine List.flatMap_eq_nil_iff.mpr fun call member => ?_
  obtain ⟨dev, rfl⟩ := attaches call member
  rfl

theorem OnlyAttach.append {first second : List Call} (left : OnlyAttach first)
    (right : OnlyAttach second) : OnlyAttach (first ++ second) := by
  intro call member
  rcases List.mem_append.mp member with early | late
  · exact left call early
  · exact right call late

/-- The calls that only look devices up. -/
def OnlyFind (calls : List Call) : Prop := ∀ call ∈ calls, ∃ bus specs found, call = .find bus specs found

/-- The lookup makes one call on each bus and touches nothing else; what it
returns is what the buses returned. -/
theorem findOnBuses_spec (specs : List HwioCompSpec) (buses : List (IhwioBus World))
    (index : Nat) (ctx : Ctx World) :
    ∃ world calls, (findOnBuses specs buses index ctx).2 =
        { ctx with world := world, calls := ctx.calls ++ calls } ∧
      OnlyFind calls ∧
      ∀ found, (findOnBuses specs buses index ctx).1 = .ok found → foundIn calls = found := by
  induction buses generalizing index ctx with
  | nil =>
      refine ⟨ctx.world, [], by simp [findOnBuses], by simp [OnlyFind], ?_⟩
      intro found same
      cases same
      rfl
  | cons bus rest inductionHypothesis =>
      rw [findOnBuses]
      rcases bus.findDevices specs ctx.world with ⟨result, world⟩
      cases result with
      | error exn =>
          refine ⟨world, [.find index specs none], rfl, ?_, ?_⟩
          · intro call member
            exact ⟨index, specs, none, List.mem_singleton.mp member⟩
          · intro found same
            cases same
      | ok found =>
          obtain ⟨after, calls, left, finds, results⟩ := inductionHypothesis (index + 1)
            { ctx with world := world, calls := ctx.calls ++ [.find index specs (some found)] }
          rcases looked : findOnBuses specs rest (index + 1)
            { ctx with world := world, calls := ctx.calls ++ [.find index specs (some found)] }
            with ⟨more, last⟩
          rw [looked] at left results
          have onlyFind : OnlyFind (.find index specs (some found) :: calls) := by
            intro call member
            rcases List.mem_cons.mp member with rfl | later
            · exact ⟨index, specs, some found, rfl⟩
            · exact finds call later
          have appended : last =
              { ctx with
                world := after
                calls := ctx.calls ++ .find index specs (some found) :: calls } := by
            simp only at left
            rw [left]
            simp
          simp only [looked]
          cases more with
          | error stop =>
              refine ⟨after, _, appended, onlyFind, ?_⟩
              intro all same
              cases same
          | ok more =>
              refine ⟨after, _, appended, onlyFind, ?_⟩
              intro all same
              cases same
              show found ++ foundIn calls = found ++ more
              rw [results more rfl]

/-- The lookup does not look at the buffers. -/
theorem findOnBuses_buffers (specs : List HwioCompSpec) (buses : List (IhwioBus World))
    (index : Nat) (ctx : Ctx World) (rx tx : List Byte) :
    findOnBuses specs buses index { ctx with rx := rx, tx := tx } =
      ((findOnBuses specs buses index ctx).1,
        { (findOnBuses specs buses index ctx).2 with rx := rx, tx := tx }) := by
  induction buses generalizing index ctx with
  | nil => rfl
  | cons bus rest inductionHypothesis =>
      rw [findOnBuses, findOnBuses]
      simp only
      rcases bus.findDevices specs ctx.world with ⟨result, world⟩
      cases result with
      | error exn => rfl
      | ok found =>
          have later := inductionHypothesis (index + 1)
            { ctx with world := world, calls := ctx.calls ++ [.find index specs (some found)] }
          simp only at later ⊢
          rw [later]
          rcases findOnBuses specs rest (index + 1)
            { ctx with world := world, calls := ctx.calls ++ [.find index specs (some found)] }
            with ⟨more, last⟩
          cases more <;> rfl

/-- The first call of a lookup names the specifications. -/
theorem findOnBuses_calls (specs : List HwioCompSpec) (bus : IhwioBus World)
    (rest : List (IhwioBus World)) (index : Nat) (ctx : Ctx World) :
    ∃ found later, (findOnBuses specs (bus :: rest) index ctx).2.calls =
      ctx.calls ++ .find index specs found :: later := by
  rw [findOnBuses]
  rcases bus.findDevices specs ctx.world with ⟨result, world⟩
  cases result with
  | error exn => exact ⟨none, [], rfl⟩
  | ok found =>
      obtain ⟨after, calls, left, _, _⟩ := findOnBuses_spec specs rest (index + 1)
        { ctx with world := world, calls := ctx.calls ++ [.find index specs (some found)] }
      refine ⟨some found, calls, ?_⟩
      simp only
      rcases looked : findOnBuses specs rest (index + 1)
        { ctx with world := world, calls := ctx.calls ++ [.find index specs (some found)] }
        with ⟨more, last⟩
      rw [looked] at left
      simp only at left
      subst left
      cases more <;> simp

/-- The lookup only ends early with the exception of a bus. -/
theorem findOnBuses_thrown (specs : List HwioCompSpec) (buses : List (IhwioBus World))
    (index : Nat) (ctx : Ctx World) (stop : Stop)
    (stopped : (findOnBuses specs buses index ctx).1 = .error stop) : ∃ exn, stop = .thrown exn := by
  induction buses generalizing index ctx with
  | nil => cases stopped
  | cons bus rest inductionHypothesis =>
      rw [findOnBuses] at stopped
      rcases looking : bus.findDevices specs ctx.world with ⟨result, world⟩
      rw [looking] at stopped
      cases result with
      | error exn =>
          cases stopped
          exact ⟨exn, rfl⟩
      | ok found =>
          have later := inductionHypothesis (index + 1)
            { ctx with world := world, calls := ctx.calls ++ [.find index specs (some found)] }
          simp only at stopped
          rcases goingOn : findOnBuses specs rest (index + 1)
            { ctx with world := world, calls := ctx.calls ++ [.find index specs (some found)] }
            with ⟨more, last⟩
          rw [goingOn] at stopped later
          cases more with
          | error other =>
              cases stopped
              exact later rfl
          | ok more => cases stopped

/-! ## The registration -/

/-- Registering one device changes the device list, attaches at most that
device and leaves the buffers as they are. -/
theorem registerDevice_spec (tables : Tables World) (dev : DevPtr) (ctx : Ctx World) :
    ∃ world devices calls, (registerDevice tables dev ctx).2 =
        { ctx with devices := devices, world := world, calls := ctx.calls ++ calls } ∧
      OnlyAttach calls := by
  have none : OnlyAttach [] := by simp [OnlyAttach]
  have one : OnlyAttach [.attach dev] := fun call member => ⟨dev, List.mem_singleton.mp member⟩
  unfold registerDevice
  simp only
  split
  · exact ⟨ctx.world, ctx.devices, [], by simp, none⟩
  · split
    · exact ⟨ctx.world, ctx.devices, [], by simp, none⟩
    · split
      · exact ⟨_, _, _, rfl, one⟩
      · exact ⟨_, _, _, rfl, one⟩

/-- The registration of one device does not look at the buffers. -/
theorem registerDevice_buffers (tables : Tables World) (dev : DevPtr) (ctx : Ctx World)
    (rx tx : List Byte) :
    registerDevice tables dev { ctx with rx := rx, tx := tx } =
      ((registerDevice tables dev ctx).1,
        { (registerDevice tables dev ctx).2 with rx := rx, tx := tx }) := by
  unfold registerDevice
  simp only
  by_cases registered : (searchSlot dev ctx.devices 0 none).alreadyRegistered = true
  · rw [if_pos registered, if_pos registered]
  · rw [if_neg registered, if_neg registered]
    cases placeDevice dev ctx.devices (searchSlot dev ctx.devices 0 none) with
    | none => rfl
    | some place =>
        simp only
        cases ((tables.device dev).attach ctx.world).1 <;> rfl

/-- Registration goes on where it stopped. -/
theorem registerDevices_append (tables : Tables World) (first second : List DevPtr) (i : Nat)
    (ctx : Ctx World) :
    registerDevices tables (first ++ second) i ctx =
      match registerDevices tables first i ctx with
      | (.error stop, ctx) => (.error stop, ctx)
      | (.ok (), ctx) => registerDevices tables second (i + first.length) ctx := by
  induction first generalizing i ctx with
  | nil => rfl
  | cons dev rest inductionHypothesis =>
      rw [List.cons_append, registerDevices, registerDevices]
      rcases registerDevice tables dev ctx with ⟨result, left⟩
      cases result with
      | error stop => rfl
      | ok devId =>
          simp only
          rw [inductionHypothesis, List.length_cons, Nat.add_right_comm, Nat.add_assoc]

/-- What the registration of a whole list leaves: the ids that were written lie
behind one another, and `body_len` counts them modulo its width. -/
theorem registerDevices_spec (tables : Tables World) (devs : List DevPtr) (i : Nat)
    (ctx : Ctx World) (room : sizeofHeader ≤ ctx.tx.length) :
    ∃ count world devices tx calls, (registerDevices tables devs i ctx).2 =
        { ctx with devices := devices, world := world, tx := tx, calls := ctx.calls ++ calls } ∧
      OnlyAttach calls ∧
      (if count = 0 then tx = ctx.tx
        else tx.length = max ctx.tx.length (sizeofHeader + sizeofDevId * (i + count))) ∧
      (replyHeader tx).command = (replyHeader ctx.tx).command ∧
      (replyHeader tx).bodyLen.toNat =
        ((replyHeader ctx.tx).bodyLen.toNat + sizeofDevId * count) % 65536 ∧
      (if (registerDevices tables devs i ctx).1 = .ok () then count = devs.length
        else count < devs.length) := by
  induction devs generalizing i ctx with
  | nil =>
      refine ⟨0, ctx.world, ctx.devices, ctx.tx, [], by simp [registerDevices],
        by simp [OnlyAttach], by simp, rfl, ?_, by simp [registerDevices]⟩
      exact (Nat.mod_eq_of_lt (replyHeader ctx.tx).bodyLen.toNat_lt).symm
  | cons dev rest inductionHypothesis =>
      obtain ⟨world, devices, calls, left, attach⟩ := registerDevice_spec tables dev ctx
      rw [registerDevices]
      rcases registering : registerDevice tables dev ctx with ⟨result, after⟩
      rw [registering] at left
      simp only at left
      subst left
      cases result with
      | error stop =>
          refine ⟨0, world, devices, ctx.tx, calls, rfl, attach, by simp, rfl, ?_, by simp⟩
          exact (Nat.mod_eq_of_lt (replyHeader ctx.tx).bodyLen.toNat_lt).symm
      | ok devId =>
          simp only
          let tx := store (setBodyLen ctx.tx ((replyHeader ctx.tx).bodyLen.toNat + sizeofDevId))
            (sizeofHeader + sizeofDevId * i) (u16Bytes devId)
          have length : tx.length =
              max ctx.tx.length (sizeofHeader + sizeofDevId * (i + 1)) := by
            simp only [tx, store_length, setBodyLen_length, u16Bytes_length]
            simp only [sizeofHeader, sizeofDevId] at *
            omega
          have header : replyHeader tx = ⟨(replyHeader ctx.tx).command,
              UInt16.ofNat ((replyHeader ctx.tx).bodyLen.toNat + sizeofDevId)⟩ := by
            rw [replyHeader_store _ _ (Nat.le_add_right _ _), replyHeader_setBodyLen]
          obtain ⟨count, world', devices', tx', calls', left', attach', length', command',
            bodyLen', counted'⟩ := inductionHypothesis (i + 1)
              { ctx with
                devices := devices, world := world, calls := ctx.calls ++ calls, tx := tx }
              (by rw [length]; exact Nat.le_trans room (Nat.le_max_left _ _))
          refine ⟨count + 1, world', devices', tx', calls ++ calls', ?_, attach.append attach',
            ?_, ?_, ?_, ?_⟩
          · rw [left']
            simp
          · rw [if_neg (Nat.succ_ne_zero count)]
            split at length'
            · next none =>
              rw [length', none, length]
            · rw [length', length]
              simp only [sizeofHeader, sizeofDevId]
              omega
          · rw [command', header]
          · rw [bodyLen', header, UInt16.toNat_ofNat']
            simp only [sizeofDevId]
            omega
          · split at counted'
            · next complete =>
              rw [if_pos complete, counted', List.length_cons]
            · next incomplete =>
              rw [if_neg incomplete, List.length_cons]
              omega

/-! ## The whole lookup -/

/-- The request when the buses were asked, and what they found is to be
registered. -/
def Ctx.registering (ctx : Ctx World) (world : World) (finds : List Call) : Ctx World :=
  { ctx with
    tx := setBodyLen (setCommand ctx.tx .queryResp) 0
    world := world
    calls := ctx.calls ++ finds }

theorem registering_room (ctx : Ctx World) (world : World) (finds : List Call) :
    sizeofHeader ≤ (ctx.registering world finds).tx.length := by
  show sizeofHeader ≤ (setBodyLen (setCommand ctx.tx .queryResp) 0).length
  rw [setBodyLen_length]
  exact Nat.le_max_right _ _

/-- The registration of what was found only adds attach calls. -/
theorem registering_calls (tables : Tables World) (found : List DevPtr) (ctx : Ctx World)
    (world : World) (finds : List Call) :
    ∃ attached, OnlyAttach attached ∧
      (registerDevices tables found 0 (ctx.registering world finds)).2.calls =
        (ctx.calls ++ finds) ++ attached := by
  obtain ⟨_, _, _, _, attached, left, onlyAttach, _⟩ := registerDevices_spec tables found 0
    (ctx.registering world finds) (registering_room ctx world finds)
  refine ⟨attached, onlyAttach, ?_⟩
  rw [left]
  rfl

theorem registering_found (tables : Tables World) (found : List DevPtr) (ctx : Ctx World)
    (world : World) (finds : List Call) :
    foundIn (registerDevices tables found 0 (ctx.registering world finds)).2.calls =
      foundIn (ctx.calls ++ finds) := by
  obtain ⟨attached, onlyAttach, calls⟩ := registering_calls tables found ctx world finds
  rw [calls, foundIn_append, onlyAttach.foundIn, List.append_nil]

/-- A lookup ends with the exception of a bus, or registers all that was found. -/
theorem deviceLookupResp_cases (tables : Tables World) (count : Nat) (ctx : Ctx World) :
    ∃ result world finds,
      findOnBuses (extractSpecFromClientQuery ctx.rx count) tables.buses 0 ctx =
        (result, { ctx with world := world, calls := ctx.calls ++ finds }) ∧
      OnlyFind finds ∧
      ((∃ exn, result = .error (.thrown exn) ∧
          deviceLookupResp tables count ctx =
            (.error (.thrown exn),
              { ctx with
                tx := setCommand ctx.tx .queryResp
                world := world
                calls := ctx.calls ++ finds })) ∨
        ∃ found, result = .ok found ∧ foundIn finds = found ∧
          deviceLookupResp tables count ctx =
            match registerDevices tables found 0 (ctx.registering world finds) with
            | (.error stop, ctx) => (.error stop, ctx)
            | (.ok (), ctx) =>
              (.ok ⟨false, sizeofHeader + (replyHeader ctx.tx).bodyLen.toNat⟩, ctx)) := by
  obtain ⟨world, finds, left, onlyFind, results⟩ := findOnBuses_spec
    (extractSpecFromClientQuery ctx.rx count) tables.buses 0 ctx
  have thrown := findOnBuses_thrown (extractSpecFromClientQuery ctx.rx count) tables.buses 0 ctx
  have buffers := findOnBuses_buffers (extractSpecFromClientQuery ctx.rx count) tables.buses 0 ctx
    ctx.rx (setCommand ctx.tx .queryResp)
  unfold deviceLookupResp
  simp only
  rw [buffers]
  rcases looking : findOnBuses (extractSpecFromClientQuery ctx.rx count) tables.buses 0 ctx
    with ⟨result, after⟩
  rw [looking] at left results thrown
  simp only at left
  subst left
  refine ⟨result, world, finds, rfl, onlyFind, ?_⟩
  cases result with
  | error stop =>
      obtain ⟨exn, rfl⟩ := thrown stop rfl
      exact Or.inl ⟨exn, rfl, rfl⟩
  | ok found => exact Or.inr ⟨found, rfl, results found rfl, rfl⟩

/-- A query is refused, or the devices it asks for are looked up. -/
theorem handleQuery_cases (tables : Tables World) (header : HwioPacketHeader) (ctx : Ctx World) :
    (∃ code message, code ≠ .ioError ∧ handleQuery tables header ctx = ctx.sendErr code message) ∨
      handleQuery tables header ctx =
        deviceLookupResp tables (header.bodyLen.toNat / sizeofDevQueryItem) ctx := by
  unfold handleQuery
  simp only
  split
  · exact Or.inl ⟨_, _, by decide, rfl⟩
  · split
    · exact Or.inl ⟨_, _, by decide, rfl⟩
    · exact Or.inr rfl

/-- What a query comes to: a refusal, the exception of a bus, or what the
registration of the devices found comes to. -/
inductive Queried (tables : Tables World) (specs : List HwioCompSpec) (ctx : Ctx World) :
    Handled World → Prop
  | refused (code : HwioServerError) (message : Text) (early : code ≠ .ioError) :
      Queried tables specs ctx (ctx.sendErr code message)
  | thrown {exn : Exn} {world : World} {finds : List Call} (onlyFind : OnlyFind finds)
      (looking : findOnBuses specs tables.buses 0 ctx =
        (.error (.thrown exn), { ctx with world := world, calls := ctx.calls ++ finds })) :
      Queried tables specs ctx
        (.error (.thrown exn),
          { ctx with
            tx := setCommand ctx.tx .queryResp
            world := world
            calls := ctx.calls ++ finds })
  | stopped {world : World} {finds : List Call} {found : List DevPtr} {stop : Stop}
      {last : Ctx World} (onlyFind : OnlyFind finds)
      (looking : findOnBuses specs tables.buses 0 ctx =
        (.ok found, { ctx with world := world, calls := ctx.calls ++ finds }))
      (results : foundIn finds = found)
      (registered : registerDevices tables found 0 (ctx.registering world finds) =
        (.error stop, last)) :
      Queried tables specs ctx (.error stop, last)
  | answered {world : World} {finds : List Call} {found : List DevPtr} {last : Ctx World}
      (onlyFind : OnlyFind finds)
      (looking : findOnBuses specs tables.buses 0 ctx =
        (.ok found, { ctx with world := world, calls := ctx.calls ++ finds }))
      (results : foundIn finds = found)
      (registered : registerDevices tables found 0 (ctx.registering world finds) = (.ok (), last)) :
      Queried tables specs ctx
        (.ok ⟨false, sizeofHeader + (replyHeader last.tx).bodyLen.toNat⟩, last)

theorem deviceLookupResp_queried (tables : Tables World) (count : Nat) (ctx : Ctx World) :
    Queried tables (extractSpecFromClientQuery ctx.rx count) ctx
      (deviceLookupResp tables count ctx) := by
  obtain ⟨result, world, finds, looking, onlyFind, ⟨exn, rfl, left⟩ | ⟨found, rfl, results, left⟩⟩ :=
    deviceLookupResp_cases tables count ctx
  · rw [left]
    exact .thrown onlyFind looking
  · rw [left]
    rcases registered : registerDevices tables found 0 (ctx.registering world finds) with
      ⟨ended, last⟩
    cases ended with
    | error stop => exact .stopped onlyFind looking results registered
    | ok done => exact .answered onlyFind looking results registered

theorem handleQuery_queried (tables : Tables World) (header : HwioPacketHeader)
    (ctx : Ctx World) :
    Queried tables
      (extractSpecFromClientQuery ctx.rx (header.bodyLen.toNat / sizeofDevQueryItem)) ctx
      (handleQuery tables header ctx) := by
  rcases handleQuery_cases tables header ctx with ⟨code, message, early, refusal⟩ | lookup
  · rw [refusal]
    exact .refused code message early
  · rw [lookup]
    exact deviceLookupResp_queried tables _ ctx

/-- A query for a number of items that is allowed is not refused. -/
theorem handleQuery_allowed (tables : Tables World) {header : HwioPacketHeader} (ctx : Ctx World)
    {count : Nat} (size : header.bodyLen.toNat = count * sizeofDevQueryItem) (some : 0 < count)
    (few : count ≤ maxItemsPerQuery) :
    handleQuery tables header ctx = deviceLookupResp tables count ctx := by
  have items : header.bodyLen.toNat / sizeofDevQueryItem = count := by
    rw [size]
    exact Nat.mul_div_cancel count (by decide)
  unfold handleQuery
  simp only [items]
  rw [if_neg (not_not.mpr size), if_neg (by omega)]

end Hwio
