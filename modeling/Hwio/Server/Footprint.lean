import Hwio.Server.ReplyFrame

/-!
Contract: the memory that a request touches.

Owns the ranges of the receive buffer that `handle_msg` reads and stores for
every command, that nothing outside of them matters or is changed, and the
requests whose ranges end inside the buffer.

Does not own what the handlers make of what they read.
-/

namespace Hwio

open Library

variable {World : Type}

/-! ## Ranges -/

/-- `count` bytes from `offset` on, counted from the body of a request. -/
structure Extent where
  offset : Nat
  count : Nat

/-- The range ends in the first `room` bytes; an empty one has no place. -/
def Extent.Ends (extent : Extent) (room : Nat) : Prop :=
  extent.count = 0 ∨ extent.offset + extent.count ≤ room

instance (extent : Extent) (room : Nat) : Decidable (extent.Ends room) :=
  inferInstanceAs (Decidable (_ ∨ _))

/-- The range holds the same in two memories. -/
def Extent.Same (extent : Extent) (left right : List Byte) : Prop :=
  load left extent.offset extent.count = load right extent.offset extent.count

/-- A C string with its terminator. -/
def Extent.string (rx : List Byte) (offset : Nat) : Extent :=
  ⟨offset, (cstr (rx.drop offset)).length + 1⟩

theorem Extent.Ends.same {extent : Extent} {room : Nat} (ends : extent.Ends room)
    (memory beyond : List Byte) : extent.Same (load memory 0 room ++ beyond) memory := by
  unfold Extent.Same
  rcases ends with none | inside
  · rw [none, load_zero, load_zero]
  · rw [load_append_left beyond (by rw [load_length]; exact inside), load_load memory inside,
      Nat.zero_add]

theorem loadU16_same {left right : List Byte} {count : Nat}
    (same : (Extent.mk 0 count).Same left right) {offset : Nat} (inside : offset + 2 ≤ count) :
    loadU16 left offset = loadU16 right offset := by
  rw [loadU16, loadU16, load_part same inside]

theorem loadU32_same {left right : List Byte} {count : Nat}
    (same : (Extent.mk 0 count).Same left right) {offset : Nat} (inside : offset + 4 ≤ count) :
    loadU32 left offset = loadU32 right offset := by
  rw [loadU32, loadU32, load_part same inside]

theorem cstr_same {left right : List Byte} {offset : Nat}
    (same : (Extent.string right offset).Same left right) :
    cstr (left.drop offset) = cstr (right.drop offset) := by
  have ends : 0 ∈ load right offset ((cstr (right.drop offset)).length + 1) := by
    have whole := load_cstr (right.drop offset)
    rw [load_drop, Nat.add_zero] at whole
    rw [whole]
    exact List.mem_append_right _ List.mem_cons_self
  have equal : load left offset ((cstr (right.drop offset)).length + 1) =
      load right offset ((cstr (right.drop offset)).length + 1) := same
  rw [cstr_drop_of_load (equal ▸ ends), equal, ← cstr_drop_of_load ends]

/-! ## What the handlers touch -/

/-- `wrReq->data`, as many bytes as the request says. -/
def writeExtents (header : HwioPacketHeader) (ctx : Ctx World) : List Extent :=
  if header.bodyLen.toNat < sizeofWrReq ∨ maxDevices ≤ (loadU16 ctx.rx 0).toNat then []
  else
    match clientGetDev ctx.devices (loadU16 ctx.rx 0) with
    | none => []
    | some _ => [⟨sizeofWrReq, (loadU16 ctx.rx 6).toNat⟩]

/-- `rc->fn_name`, and `rc->args` of the plugin that has this name. -/
def remoteCallExtents (tables : Tables World) (header : HwioPacketHeader) (ctx : Ctx World) :
    List Extent :=
  if header.bodyLen.toNat < sizeofRemoteCall - 1 then []
  else
    match clientGetDev ctx.devices (loadU16 ctx.rx 0) with
    | none => []
    | some _ =>
      .string ctx.rx 2 ::
        match tables.findPlugin (cstr (ctx.rx.drop 2)) with
        | none => []
        | some plugin => [⟨sizeofRemoteCall, plugin.argsSize⟩]

/-- `rc->fn_id`, and `rc->args` of the plugin that has this id. -/
def fastRemoteCallExtents (tables : Tables World) (header : HwioPacketHeader)
    (ctx : Ctx World) : List Extent :=
  if header.bodyLen.toNat < sizeofRemoteCallFast - 1 then []
  else
    match clientGetDev ctx.devices (loadU16 ctx.rx 0) with
    | none => []
    | some _ =>
      ⟨2, 4⟩ ::
        match tables.pluginsFast[(loadU32 ctx.rx 2).toNat]? with
        | none => []
        | some plugin => [⟨sizeofRemoteCallFast, plugin.argsSize⟩]

/-- `rc->fn_name` -/
def getRpcFnIdExtents (header : HwioPacketHeader) (ctx : Ctx World) : List Extent :=
  if header.bodyLen.toNat < sizeofGetRemoteCallId then []
  else
    match clientGetDev ctx.devices (loadU16 ctx.rx 0) with
    | none => []
    | some _ => [.string ctx.rx 2]

instance (header : HwioPacketHeader) : Decidable (QueryFramed header) :=
  inferInstanceAs (Decidable (_ ∧ _ ∧ _))

/-- `item->device_name`, `item->vendor_name` and `item->type_name` of the items. -/
def queryExtents (header : HwioPacketHeader) (ctx : Ctx World) : List Extent :=
  if QueryFramed header then
    (List.range (header.bodyLen.toNat / sizeofDevQueryItem)).flatMap fun item =>
      [0, maxNameLen, 2 * maxNameLen].map fun place =>
        .string ctx.rx (item * sizeofDevQueryItem + place)
  else []

/-- What `handle_msg` reads and stores of the receive buffer: the body, and what
the handler takes for a part of it.  Of a MSG this is the text up to the
terminator that is stored. -/
def touched (tables : Tables World) (header : HwioPacketHeader) (ctx : Ctx World) :
    List Extent :=
  ⟨0, header.bodyLen.toNat⟩ ::
    match HwioCmd.ofCode header.command with
    | some .remoteCallFast => fastRemoteCallExtents tables header ctx
    | some .write => writeExtents header ctx
    | some .remoteCall => remoteCallExtents tables header ctx
    | some .query => queryExtents header ctx
    | some .getRemoteCallId => getRpcFnIdExtents header ctx
    | some .msg => [⟨0, 4 + maxNameLen⟩]
    | _ => []

/-! ## Nothing else matters -/

/-- The request whose memory from the body on is given. -/
abbrev Ctx.reading (ctx : Ctx World) (rx : List Byte) : Ctx World := { ctx with rx := rx }

/-- The outcome of a request, with other memory from the body on. -/
abbrev Handled.reading (handled : Handled World) (rx : List Byte) : Handled World :=
  (handled.1, handled.2.reading rx)

variable {header : HwioPacketHeader} {ctx : Ctx World} {rx : List Byte}

theorem handleRead_reading (tables : Tables World)
    (body : (Extent.mk 0 header.bodyLen.toNat).Same rx ctx.rx) :
    handleRead tables header (ctx.reading rx) = (handleRead tables header ctx).reading rx := by
  unfold handleRead
  by_cases size : header.bodyLen.toNat = sizeofRdReq
  case neg =>
    rw [if_pos size, if_pos size]
    rfl
  rw [if_neg (not_not_intro size), if_neg (not_not_intro size)]
  rw [size] at body
  simp only [loadU16_same body (show 0 + 2 ≤ sizeofRdReq by decide),
    loadU32_same body (show 2 + 4 ≤ sizeofRdReq by decide),
    loadU16_same body (show 6 + 2 ≤ sizeofRdReq by decide)]
  cases clientGetDev ctx.devices (loadU16 ctx.rx 0) with
  | none => rfl
  | some dev =>
      simp only
      cases ((tables.device dev).read (loadU32 ctx.rx 2) (loadU16 ctx.rx 6).toNat
        ctx.world).1.thrown with
      | none => rfl
      | some exn =>
          simp only
          cases exn.isRuntimeError <;> rfl

theorem handleWrite_reading (tables : Tables World)
    (body : (Extent.mk 0 header.bodyLen.toNat).Same rx ctx.rx)
    (same : ∀ extent ∈ writeExtents header ctx, extent.Same rx ctx.rx) :
    handleWrite tables header (ctx.reading rx) = (handleWrite tables header ctx).reading rx := by
  unfold handleWrite
  by_cases size : header.bodyLen.toNat < sizeofWrReq
  · rw [if_pos size, if_pos size]
    rfl
  rw [if_neg size, if_neg size]
  have enough : 8 ≤ header.bodyLen.toNat := Nat.le_of_not_lt size
  simp only [loadU16_same body (show 0 + 2 ≤ header.bodyLen.toNat by omega),
    loadU32_same body (show 2 + 4 ≤ header.bodyLen.toNat by omega),
    loadU16_same body (show 6 + 2 ≤ header.bodyLen.toNat by omega)]
  by_cases limit : maxDevices ≤ (loadU16 ctx.rx 0).toNat
  · rw [if_pos limit, if_pos limit]
    rfl
  rw [if_neg limit, if_neg limit]
  unfold writeExtents at same
  rw [if_neg (not_or.mpr ⟨size, limit⟩)] at same
  cases resolved : clientGetDev ctx.devices (loadU16 ctx.rx 0) with
  | none => rfl
  | some dev =>
      simp only [resolved, List.mem_singleton, forall_eq] at same ⊢
      rw [show load rx sizeofWrReq (loadU16 ctx.rx 6).toNat =
        load ctx.rx sizeofWrReq (loadU16 ctx.rx 6).toNat from same]
      cases ((tables.device dev).write (loadU32 ctx.rx 2)
        (load ctx.rx sizeofWrReq (loadU16 ctx.rx 6).toNat) ctx.world).1 <;> rfl

theorem callPlugin_reading (plugin : PluginInfo World) (key : PluginKey) (dev : DevPtr)
    {argsOffset : Nat} (same : (Extent.mk argsOffset plugin.argsSize).Same rx ctx.rx) :
    callPlugin plugin key dev argsOffset (ctx.reading rx) =
      (callPlugin plugin key dev argsOffset ctx).reading rx := by
  have args : load rx argsOffset plugin.argsSize = load ctx.rx argsOffset plugin.argsSize := same
  unfold callPlugin
  simp only [args]
  cases (plugin.fn dev (load ctx.rx argsOffset plugin.argsSize) ctx.world).1.thrown with
  | none =>
      simp only
      by_cases returns : plugin.retSize = 0
      · rw [if_neg (not_not_intro returns), if_neg (not_not_intro returns)]
      · rw [if_pos returns, if_pos returns]
  | some exn =>
      simp only
      cases exn.isRuntimeError <;> rfl

theorem handleRemoteCall_reading {tables : Tables World}
    (body : (Extent.mk 0 header.bodyLen.toNat).Same rx ctx.rx)
    (same : ∀ extent ∈ remoteCallExtents tables header ctx, extent.Same rx ctx.rx) :
    handleRemoteCall tables header (ctx.reading rx) =
      (handleRemoteCall tables header ctx).reading rx := by
  unfold handleRemoteCall
  unfold remoteCallExtents at same
  by_cases size : header.bodyLen.toNat < sizeofRemoteCall - 1
  · rw [if_pos size, if_pos size]
    rfl
  rw [if_neg size] at same ⊢
  rw [if_neg size]
  have enough : 129 ≤ header.bodyLen.toNat := Nat.le_of_not_lt size
  simp only [loadU16_same body (show 0 + 2 ≤ header.bodyLen.toNat by omega)]
  cases resolved : clientGetDev ctx.devices (loadU16 ctx.rx 0) with
  | none => rfl
  | some dev =>
      simp only [resolved, List.forall_mem_cons] at same
      simp only [cstr_same same.1]
      cases found : tables.findPlugin (cstr (ctx.rx.drop 2)) with
      | none => rfl
      | some plugin =>
          simp only [found, List.mem_singleton, forall_eq] at same
          exact callPlugin_reading plugin _ dev same.2

theorem handleFastRemoteCall_reading {tables : Tables World}
    (body : (Extent.mk 0 header.bodyLen.toNat).Same rx ctx.rx)
    (same : ∀ extent ∈ fastRemoteCallExtents tables header ctx, extent.Same rx ctx.rx) :
    handleFastRemoteCall tables header (ctx.reading rx) =
      (handleFastRemoteCall tables header ctx).reading rx := by
  unfold handleFastRemoteCall
  unfold fastRemoteCallExtents at same
  by_cases size : header.bodyLen.toNat < sizeofRemoteCallFast - 1
  · rw [if_pos size, if_pos size]
    rfl
  rw [if_neg size] at same ⊢
  rw [if_neg size]
  have enough : 5 ≤ header.bodyLen.toNat := Nat.le_of_not_lt size
  simp only [loadU16_same body (show 0 + 2 ≤ header.bodyLen.toNat by omega)]
  cases resolved : clientGetDev ctx.devices (loadU16 ctx.rx 0) with
  | none => rfl
  | some dev =>
      simp only [resolved, List.forall_mem_cons] at same
      have fnId : loadU32 rx 2 = loadU32 ctx.rx 2 := by
        rw [loadU32, loadU32, show load rx 2 4 = load ctx.rx 2 4 from same.1]
      simp only [fnId]
      cases found : tables.pluginsFast[(loadU32 ctx.rx 2).toNat]? with
      | none => rfl
      | some plugin =>
          simp only [found, List.mem_singleton, forall_eq] at same
          exact callPlugin_reading plugin _ dev same.2

theorem handleGetRpcFnId_reading (tables : Tables World)
    (body : (Extent.mk 0 header.bodyLen.toNat).Same rx ctx.rx)
    (same : ∀ extent ∈ getRpcFnIdExtents header ctx, extent.Same rx ctx.rx) :
    handleGetRpcFnId tables header (ctx.reading rx) =
      (handleGetRpcFnId tables header ctx).reading rx := by
  unfold handleGetRpcFnId
  unfold getRpcFnIdExtents at same
  by_cases size : header.bodyLen.toNat < sizeofGetRemoteCallId
  · rw [if_pos size, if_pos size]
    rfl
  rw [if_neg size] at same ⊢
  rw [if_neg size]
  have enough : 130 ≤ header.bodyLen.toNat := Nat.le_of_not_lt size
  simp only [loadU16_same body (show 0 + 2 ≤ header.bodyLen.toNat by omega)]
  cases resolved : clientGetDev ctx.devices (loadU16 ctx.rx 0) with
  | none => rfl
  | some dev =>
      simp only [resolved, List.mem_singleton, forall_eq] at same
      simp only [cstr_same same]
      cases tables.pluginsFastNames.findIdx? fun name => cstr (ctx.rx.drop 2) = name <;> rfl

/-- The lookup does not read the request. -/
theorem findOnBuses_reading (specs : List HwioCompSpec) (buses : List (IhwioBus World))
    (index : Nat) (ctx : Ctx World) (rx : List Byte) :
    findOnBuses specs buses index (ctx.reading rx) =
      ((findOnBuses specs buses index ctx).1, (findOnBuses specs buses index ctx).2.reading rx) := by
  obtain ⟨world, calls, left, _⟩ := findOnBuses_spec specs buses index ctx
  rw [findOnBuses_buffers specs buses index ctx rx ctx.tx, left]

theorem registerDevice_reading (tables : Tables World) (dev : DevPtr) (ctx : Ctx World)
    (rx : List Byte) :
    registerDevice tables dev (ctx.reading rx) =
      ((registerDevice tables dev ctx).1, (registerDevice tables dev ctx).2.reading rx) := by
  obtain ⟨world, devices, calls, left, _⟩ := registerDevice_spec tables dev ctx
  rw [registerDevice_buffers tables dev ctx rx ctx.tx, left]

theorem registerDevices_reading (tables : Tables World) (devs : List DevPtr) (i : Nat)
    (ctx : Ctx World) (rx : List Byte) :
    registerDevices tables devs i (ctx.reading rx) =
      ((registerDevices tables devs i ctx).1, (registerDevices tables devs i ctx).2.reading rx) := by
  induction devs generalizing i ctx with
  | nil => rfl
  | cons dev rest inductionHypothesis =>
      rw [registerDevices, registerDevices, registerDevice_reading]
      rcases registerDevice tables dev ctx with ⟨result, after⟩
      cases result with
      | error stop => rfl
      | ok devId =>
          exact inductionHypothesis (i + 1) { after with
            tx := store (setBodyLen after.tx ((replyHeader after.tx).bodyLen.toNat + sizeofDevId))
              (sizeofHeader + sizeofDevId * i) (u16Bytes devId) }

/-- The specifications of a query are made of the texts and of the versions. -/
theorem extractSpec_same {count : Nat} {left right : List Byte}
    (body : (Extent.mk 0 (count * sizeofDevQueryItem)).Same left right)
    (texts : ∀ item < count, ∀ place ∈ [0, maxNameLen, 2 * maxNameLen],
      (Extent.string right (item * sizeofDevQueryItem + place)).Same left right) :
    extractSpecFromClientQuery left count = extractSpecFromClientQuery right count := by
  refine List.map_congr_left fun item member => ?_
  have below := List.mem_range.mp member
  have text : ∀ place ∈ [0, maxNameLen, 2 * maxNameLen],
      cstr (left.drop (item * sizeofDevQueryItem + place)) =
        cstr (right.drop (item * sizeofDevQueryItem + place)) :=
    fun place there => cstr_same (texts item below place there)
  simp only [List.forall_mem_cons, Nat.add_zero] at text
  obtain ⟨name, vendor, type, _⟩ := text
  have next : item * sizeofDevQueryItem + sizeofDevQueryItem ≤ count * sizeofDevQueryItem := by
    rw [← Nat.succ_mul]
    exact Nat.mul_le_mul_right _ below
  have word : ∀ offset, offset + 4 ≤ count * sizeofDevQueryItem →
      loadI32 left offset = loadI32 right offset := by
    intro offset inside
    rw [loadI32, loadI32, loadU32_same body inside]
  have version : sizeofDevQueryItem = 3 * maxNameLen + 12 := rfl
  simp only [HwioCompSpec.at, HwioVersion.at, HwioCompSpec.mk.injEq, HwioVersion.mk.injEq]
  exact ⟨name, vendor, type, word _ (by omega), word _ (by omega), word _ (by omega)⟩

theorem deviceLookupResp_reading (tables : Tables World) {count : Nat}
    (same : extractSpecFromClientQuery rx count = extractSpecFromClientQuery ctx.rx count) :
    deviceLookupResp tables count (ctx.reading rx) =
      (deviceLookupResp tables count ctx).reading rx := by
  have looked := findOnBuses_reading (extractSpecFromClientQuery ctx.rx count) tables.buses 0
    { ctx with tx := setCommand ctx.tx .queryResp } rx
  unfold deviceLookupResp
  simp only [Ctx.reading] at looked ⊢
  simp only [same, looked]
  rcases findOnBuses (extractSpecFromClientQuery ctx.rx count) tables.buses 0
    { ctx with tx := setCommand ctx.tx .queryResp } with ⟨result, after⟩
  cases result with
  | error stop => rfl
  | ok found =>
      have registered := registerDevices_reading tables found 0
        { after with tx := setBodyLen after.tx 0 } rx
      simp only [Ctx.reading] at registered ⊢
      rw [registered]
      rcases registerDevices tables found 0 { after with tx := setBodyLen after.tx 0 } with
        ⟨result, last⟩
      cases result <;> rfl

theorem handleQuery_reading (tables : Tables World)
    (body : (Extent.mk 0 header.bodyLen.toNat).Same rx ctx.rx)
    (same : ∀ extent ∈ queryExtents header ctx, extent.Same rx ctx.rx) :
    handleQuery tables header (ctx.reading rx) = (handleQuery tables header ctx).reading rx := by
  by_cases framed : QueryFramed header
  case neg =>
    obtain ⟨code, msg, _, refusal⟩ := @handleQuery_unframed World header framed
    rw [refusal, refusal]
    rfl
  rw [handleQuery_framed tables _ framed, handleQuery_framed tables _ framed]
  rw [queryExtents, if_pos framed] at same
  have size := Nat.div_add_mod header.bodyLen.toNat sizeofDevQueryItem
  rw [framed.1, Nat.add_zero, Nat.mul_comm] at size
  apply deviceLookupResp_reading
  apply extractSpec_same
  · rw [size]
    exact body
  · intro item below place there
    apply same
    rw [List.mem_flatMap]
    exact ⟨item, List.mem_range.mpr below, List.mem_map.mpr ⟨place, there, rfl⟩⟩

/-- `handle_msg` reads nothing but what it touches; but for a MSG it stores nothing. -/
theorem handleMsg_reading {tables : Tables World} (notMsg : header.command ≠ HwioCmd.msg.code)
    (same : ∀ extent ∈ touched tables header ctx, extent.Same rx ctx.rx) :
    handleMsg tables header (ctx.reading rx) = (handleMsg tables header ctx).reading rx := by
  obtain ⟨body, more⟩ := List.forall_mem_cons.mp same
  unfold handleMsg
  cases named : HwioCmd.ofCode header.command with
  | none => rfl
  | some cmd =>
      rw [named] at more
      cases cmd with
      | remoteCallFast => exact handleFastRemoteCall_reading body more
      | read => exact handleRead_reading tables body
      | write => exact handleWrite_reading tables body more
      | remoteCall => exact handleRemoteCall_reading body more
      | pingRequest =>
          simp only [handlePing]
          split <;> rfl
      | query => exact handleQuery_reading tables body more
      | getRemoteCallId => exact handleGetRpcFnId_reading tables body more
      | msg => exact absurd (HwioCmd.code_of_ofCode named).symm notMsg
      | bye | readResp | pingReply | queryResp | remoteCallRet => rfl

/-- Only the handler of MSG stores into the receive buffer. -/
theorem handleMsg_rx (tables : Tables World) (header : HwioPacketHeader) (ctx : Ctx World)
    (notMsg : header.command ≠ HwioCmd.msg.code) :
    (handleMsg tables header ctx).2.rx = ctx.rx :=
  congrArg (fun handled => handled.2.rx)
    (@handleMsg_reading World header ctx ctx.rx tables notMsg fun _ _ => rfl)

/-! ## Requests at the end of a buffer -/

/-- Only the first `room` bytes from the body on matter to a request, and it
changes none behind them: whatever lies there, it ends alike and leaves it. -/
def Enclosed (tables : Tables World) (header : HwioPacketHeader) (ctx : Ctx World)
    (room : Nat) : Prop :=
  ∀ beyond,
    handleMsg tables header (ctx.reading (load ctx.rx 0 room ++ beyond)) =
      (handleMsg tables header ctx).reading
        (load (handleMsg tables header ctx).2.rx 0 room ++ beyond)

/-- A MSG stores its terminator at a fixed place. -/
theorem handleMsg_msg (tables : Tables World) (ctx : Ctx World)
    (msg : header.command = HwioCmd.msg.code) :
    handleMsg tables header ctx =
      (.ok ⟨false, 0⟩, ctx.reading (store ctx.rx (4 + (maxNameLen - 1)) [0])) := by
  unfold handleMsg
  rw [msg, HwioCmd.ofCode_code]
  rfl

/-- A MSG is enclosed where there is room for its terminator. -/
theorem enclosed_msg_iff (tables : Tables World) (ctx : Ctx World)
    (msg : header.command = HwioCmd.msg.code) (room : Nat) :
    Enclosed tables header ctx room ↔ 4 + maxNameLen ≤ room := by
  have stored : Enclosed tables header ctx room ↔ ∀ beyond,
      store (load ctx.rx 0 room ++ beyond) (4 + (maxNameLen - 1)) [0] =
        load (store ctx.rx (4 + (maxNameLen - 1)) [0]) 0 room ++ beyond := by
    refine forall_congr' fun beyond => ?_
    rw [handleMsg_msg tables _ msg, handleMsg_msg tables _ msg]
    simp only [Handled.reading, Prod.mk.injEq, true_and, Ctx.mk.injEq, and_true]
  rw [stored]
  constructor
  · intro same
    by_contra short
    have inside : room ≤ 4 + (maxNameLen - 1) := by
      simp only [maxNameLen] at short ⊢
      omega
    -- the terminator shows among ones behind the buffer
    have ones := congrArg (fun memory : List Byte => memory.getD (4 + (maxNameLen - 1)) 0)
      (same (List.replicate (4 + maxNameLen - room) 1))
    have among : 4 + (maxNameLen - 1) - room < 4 + maxNameLen - room := by
      simp only [maxNameLen] at short ⊢
      omega
    rw [store_getD, if_pos (by simp),
      List.getD_append_right _ _ _ _ (by rw [load_length]; exact inside), load_length,
      List.getD_replicate _ among] at ones
    simp at ones
  · intro long beyond
    exact store_load_append ctx.rx long beyond

/-- A request whose ranges end in the first `room` bytes is enclosed there. -/
theorem enclosed_of_touched {tables : Tables World} {room : Nat}
    (ends : ∀ extent ∈ touched tables header ctx, extent.Ends room) :
    Enclosed tables header ctx room := by
  intro beyond
  have same : ∀ extent ∈ touched tables header ctx,
      extent.Same (load ctx.rx 0 room ++ beyond) ctx.rx :=
    fun extent member => (ends extent member).same ctx.rx beyond
  by_cases msg : header.command = HwioCmd.msg.code
  case neg =>
    rw [handleMsg_reading msg same, handleMsg_rx tables header ctx msg]
  have text := ends ⟨0, 4 + maxNameLen⟩ (by simp [touched, msg, HwioCmd.ofCode_code])
  have terminated : 4 + maxNameLen ≤ room := by
    unfold Extent.Ends at text
    simpa using text
  exact (enclosed_msg_iff tables ctx msg room).mpr terminated beyond

end Hwio
