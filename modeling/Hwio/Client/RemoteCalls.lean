import Hwio.Client.Operations
import Hwio.Server.OwnBytes

/-!
Contract: calls of plugins by name and by id, from the client to the plugin.

Owns when the plugin gets the arguments of the caller from the frame of the
call alone, and that a call by name and one by id then agree.

Does not own how the frames travel.
-/

namespace Hwio

open Library

variable {World : Type}

/-- A plugin call does the same for the same arguments, however the plugin is
chosen and wherever the arguments lie. -/
theorem observe_callPlugin_key (plugin : PluginInfo World) (key other : PluginKey) (dev : DevPtr)
    (ctx : Ctx World) {left right : List Byte} {leftOffset rightOffset : Nat}
    (same : load left leftOffset plugin.argsSize = load right rightOffset plugin.argsSize) :
    observe (callPlugin plugin key dev leftOffset (ctx.reading left)) =
      { observe (callPlugin plugin other dev rightOffset (ctx.reading right)) with
        calls := ctx.calls ++ [.plugin key dev (load left leftOffset plugin.argsSize)] } := by
  unfold callPlugin
  simp only [same]
  cases (plugin.fn dev (load right rightOffset plugin.argsSize) ctx.world).1.thrown with
  | none =>
      simp only
      by_cases returns : plugin.retSize = 0
      · rw [if_neg (not_not_intro returns), if_neg (not_not_intro returns)]
        rfl
      · rw [if_pos returns, if_pos returns]
        rfl
  | some exn =>
      simp only
      cases exn.isRuntimeError <;> rfl

/-! ## The frames of the calls -/

/-- The request of a call as the server gets it, with what follows its frame. -/
abbrev Op.handled (op : Op) (tables : Tables World) (ctx : Ctx World) (behind : List Byte) :
    Handled World :=
  handleMsg tables op.frame.header (ctx.reading (op.frame.body ++ behind))

section

variable {id : UInt16} {fnName : Text} {fnId : UInt32} {args : List Byte} {retSize : Option Nat}

/-- The frame of a call by name ends one byte before its arguments do. -/
theorem remoteCall_frame_length :
    (Op.remoteCall id fnName args retSize).frame.body.length ≤
      sizeofRemoteCall - 1 + args.length := by
  rw [Op.frame, List.length_take, List.length_take]
  exact Nat.le_trans (Nat.min_le_right _ _) (Nat.min_le_left _ _)

/-- Without arguments, it is the name that ends one byte too late. -/
theorem remoteCall_frame_body :
    (Op.remoteCall id fnName [] retSize).frame.body =
      u16Bytes id ++ strncpy fnName (maxNameLen - 1) := by
  have fits : (Op.remoteCall id fnName [] retSize).Fits := by
    simp only [Op.Fits, Op.fields, List.length_append, u16Bytes_length, strncpy_length]
    decide
  rw [Op.frame_body fits, Op.fields, List.append_nil, Op.bodyLen, List.length_nil, Nat.add_zero,
    show sizeofRemoteCall - 1 = (u16Bytes id).length + (maxNameLen - 1) by
      rw [u16Bytes_length]; rfl,
    List.take_length_add_append, strncpy_take fnName (Nat.sub_le maxNameLen 1)]

theorem remoteCallFast_frame_body (fits : (Op.remoteCallFast id fnId args retSize).Fits) :
    (Op.remoteCallFast id fnId args retSize).frame.body =
      u16Bytes id ++ (u32Bytes fnId ++ args) := by
  rw [Op.frame_body fits]
  apply List.take_of_length_le
  simp only [Op.fields, Op.bodyLen, List.length_append, u16Bytes_length, u32Bytes_length,
    sizeofRemoteCallFast]
  omega

end

theorem loadU16_front (word : UInt16) (behind : List Byte) :
    loadU16 (u16Bytes word ++ behind) 0 = word := by
  apply loadU16_of_load
  rw [load_append_left behind (by rw [u16Bytes_length]), ← u16Bytes_length word]
  exact load_whole _

/-- A call by id runs the plugin of the id with the arguments of the caller,
whatever follows the frame. -/
theorem remoteCallFast_handled {tables : Tables World} {ctx : Ctx World} {id : UInt16}
    {dev : DevPtr} (resolved : clientGetDev ctx.devices id = some dev) {fnId : UInt32}
    {plugin : PluginInfo World} (found : tables.pluginsFast[fnId.toNat]? = some plugin)
    {args : List Byte} {retSize : Option Nat}
    (fits : (Op.remoteCallFast id fnId args retSize).Fits) (behind : List Byte) :
    (Op.remoteCallFast id fnId args retSize).handled tables ctx behind =
        callPlugin plugin (.id fnId) dev sizeofRemoteCallFast
          (ctx.reading (u16Bytes id ++ (u32Bytes fnId ++ args) ++ behind)) ∧
      load (u16Bytes id ++ (u32Bytes fnId ++ args) ++ behind) sizeofRemoteCallFast args.length =
        args := by
  have body := remoteCallFast_frame_body fits
  have front : (u16Bytes id ++ u32Bytes fnId).length = sizeofRemoteCallFast := by
    rw [List.length_append, u16Bytes_length, u32Bytes_length]
    rfl
  have word : loadU32 (u16Bytes id ++ (u32Bytes fnId ++ args) ++ behind) 2 = fnId := by
    apply loadU32_of_load
    rw [List.append_assoc, List.append_assoc, ← u16Bytes_length id, ← Nat.add_zero
      (u16Bytes id).length, load_append_right, load_append_left _ (by rw [u32Bytes_length]),
      ← u32Bytes_length fnId]
    exact load_whole _
  constructor
  · have enough : sizeofRemoteCallFast - 1 ≤
        (Op.remoteCallFast id fnId args retSize).frame.body.length := by
      rw [body, List.length_append, List.length_append, u16Bytes_length, u32Bytes_length]
      simp only [sizeofRemoteCallFast]
      omega
    have allocated : clientGetDev ctx.devices
        (loadU16 (Op.remoteCallFast id fnId args retSize).frame.body 0) = some dev := by
      rw [body, loadU16_front, resolved]
    have reached := handleFastRemoteCall_reached tables enough allocated behind
    rw [body, word] at reached
    simp only [found] at reached
    rw [Op.handled, handleMsg, Op.ofCode_frame, body]
    exact reached
  · rw [← List.append_assoc, List.append_assoc, ← front, ← Nat.add_zero
      (u16Bytes id ++ u32Bytes fnId).length, load_append_right,
      load_append_left behind (Nat.le_of_eq (Nat.zero_add _))]
    exact load_whole _

theorem remoteCallFast_invoked {tables : Tables World} {ctx : Ctx World} {id : UInt16}
    {dev : DevPtr} (resolved : clientGetDev ctx.devices id = some dev) {fnId : UInt32}
    {plugin : PluginInfo World} (found : tables.pluginsFast[fnId.toNat]? = some plugin)
    {args : List Byte} (size : plugin.argsSize = args.length) {retSize : Option Nat}
    (fits : (Op.remoteCallFast id fnId args retSize).Fits) (behind : List Byte) :
    ((Op.remoteCallFast id fnId args retSize).handled tables ctx behind).2.calls =
      ctx.calls ++ [.plugin (.id fnId) dev args] := by
  have ⟨handled, arrived⟩ := remoteCallFast_handled resolved found fits behind
  rw [handled, callPlugin_calls, size, arrived]

/-! ## When the arguments arrive -/

/-- A call by name gets its arguments to the plugin from its frame alone, and
does what a call by an id of the plugin does. -/
structure ArgsIntact (tables : Tables World) (ctx : Ctx World) (dev : DevPtr)
    (plugin : PluginInfo World) (id : UInt16) (fnName : Text) (args : List Byte)
    (retSize : Option Nat) : Prop where
  carried : (Op.remoteCall id fnName args retSize).frame.body.drop sizeofRemoteCall = args
  invoked : ∀ behind, ((Op.remoteCall id fnName args retSize).handled tables ctx behind).2.calls =
    ctx.calls ++ [.plugin (.name fnName) dev args]
  agrees : ∀ fnId, tables.pluginsFast[fnId.toNat]? = some plugin → ∀ behind behind',
    ((Op.remoteCallFast id fnId args retSize).handled tables ctx behind').2.calls =
        ctx.calls ++ [.plugin (.id fnId) dev args] ∧
      observe ((Op.remoteCall id fnName args retSize).handled tables ctx behind) =
        { observe ((Op.remoteCallFast id fnId args retSize).handled tables ctx behind') with
          calls := ctx.calls ++ [.plugin (.name fnName) dev args] }
  result : ∀ fnId, (Op.remoteCall id fnName args retSize).finish =
    (Op.remoteCallFast id fnId args retSize).finish

/-- Without arguments and with a name that ends inside the frame, the plugin is
called whatever follows the frame. -/
theorem remoteCall_handled {tables : Tables World} {ctx : Ctx World} {id : UInt16}
    {dev : DevPtr} (resolved : clientGetDev ctx.devices id = some dev) {fnName : Text}
    (free : 0 ∉ fnName) (short : fnName.length < maxNameLen - 1) {plugin : PluginInfo World}
    (found : tables.findPlugin fnName = some plugin) (retSize : Option Nat)
    (behind : List Byte) :
    (Op.remoteCall id fnName [] retSize).handled tables ctx behind =
      callPlugin plugin (.name fnName) dev sizeofRemoteCall
        (ctx.reading (u16Bytes id ++ strncpy fnName (maxNameLen - 1) ++ behind)) := by
  have body := @remoteCall_frame_body id fnName retSize
  have length : (u16Bytes id ++ strncpy fnName (maxNameLen - 1)).length = sizeofRemoteCall - 1 := by
    rw [List.length_append, u16Bytes_length, strncpy_length]
    rfl
  have name : (u16Bytes id ++ strncpy fnName (maxNameLen - 1)).drop 2 =
      strncpy fnName (maxNameLen - 1) := by
    rw [← u16Bytes_length id, List.drop_left]
  have enough : sizeofRemoteCall - 1 ≤ (Op.remoteCall id fnName [] retSize).frame.body.length := by
    rw [body, length]
  have allocated : clientGetDev ctx.devices
      (loadU16 (Op.remoteCall id fnName [] retSize).frame.body 0) = some dev := by
    rw [body, loadU16_front, resolved]
  have reached := handleRemoteCall_reached tables enough allocated behind
  rw [body, name, cstr_strncpy free short] at reached
  simp only [found] at reached
  rw [Op.handled, handleMsg, Op.ofCode_frame, body]
  exact reached

/-- A name that fills all but the last byte of its field goes on with what
follows the frame. -/
theorem remoteCall_name_runs_on {tables : Tables World} {ctx : Ctx World} {id : UInt16}
    {dev : DevPtr} (resolved : clientGetDev ctx.devices id = some dev) {fnName : Text}
    (free : 0 ∉ fnName) (long : fnName.length = maxNameLen - 1) (retSize : Option Nat) :
    ((Op.remoteCall id fnName [] retSize).handled tables ctx [1]).2.calls ≠
      ctx.calls ++ [.plugin (.name fnName) dev []] := by
  have body := @remoteCall_frame_body id fnName retSize
  rw [strncpy_of_ge free (Nat.le_of_eq long.symm), ← long, List.take_length] at body
  have name : (u16Bytes id ++ fnName).drop 2 = fnName := by
    rw [← u16Bytes_length id, List.drop_left]
  have enough : sizeofRemoteCall - 1 ≤ (Op.remoteCall id fnName [] retSize).frame.body.length := by
    rw [body, List.length_append, u16Bytes_length, long]
    decide
  have allocated : clientGetDev ctx.devices
      (loadU16 (Op.remoteCall id fnName [] retSize).frame.body 0) = some dev := by
    rw [body, loadU16_front, resolved]
  have calls := handleRemoteCall_calls tables enough allocated [1]
  rw [body, name, cstr_append_of_not_mem free] at calls
  rw [Op.handled, handleMsg, Op.ofCode_frame, body]
  show (handleRemoteCall tables _ _).2.calls ≠ _
  rw [calls]
  split
  · simp
  · intro same
    have last := List.append_cancel_left same
    simp [cstr_cons_of_ne] at last

/-- The arguments of a call by name arrive, from its frame alone and as with a
call by id, just when there are none and the name ends inside the frame. -/
theorem remote_call_intact_iff (tables : Tables World) (ctx : Ctx World) {id : UInt16}
    {dev : DevPtr} (resolved : clientGetDev ctx.devices id = some dev) {fnName : Text}
    (free : 0 ∉ fnName) (short : fnName.length < maxNameLen) {plugin : PluginInfo World}
    (found : tables.findPlugin fnName = some plugin) {args : List Byte}
    (size : plugin.argsSize = args.length) (retSize : Option Nat) :
    ArgsIntact tables ctx dev plugin id fnName args retSize ↔
      args = [] ∧ fnName.length < maxNameLen - 1 := by
  constructor
  · intro intact
    have none : args = [] := by
      have counted := congrArg List.length intact.carried
      have bound := @remoteCall_frame_length id fnName args retSize
      rw [List.length_drop] at counted
      simp only [sizeofRemoteCall] at counted bound
      apply List.eq_nil_of_length_eq_zero
      omega
    subst none
    refine ⟨rfl, Nat.lt_of_le_of_ne (Nat.le_sub_one_of_lt short) fun long => ?_⟩
    exact remoteCall_name_runs_on resolved free long retSize (intact.invoked [1])
  · rintro ⟨rfl, inside⟩
    have byName := remoteCall_handled resolved free inside found retSize
    have empty : ∀ memory offset, load memory offset plugin.argsSize = [] := by
      intro memory offset
      rw [size]
      rfl
    exact {
      carried := by
        apply List.drop_eq_nil_of_le
        exact Nat.le_trans remoteCall_frame_length (by decide)
      invoked := by
        intro behind
        rw [byName, callPlugin_calls, empty]
      agrees := by
        intro fnId fast behind behind'
        have fits : (Op.remoteCallFast id fnId [] retSize).Fits := by
          simp only [Op.Fits, Op.fields, List.length_append, u16Bytes_length, u32Bytes_length]
          decide
        obtain ⟨byId, _⟩ := remoteCallFast_handled resolved fast fits behind'
        have same := (empty (u16Bytes id ++ strncpy fnName (maxNameLen - 1) ++ behind)
          sizeofRemoteCall).trans (empty (u16Bytes id ++ (u32Bytes fnId ++ []) ++ behind')
            sizeofRemoteCallFast).symm
        constructor
        · exact remoteCallFast_invoked resolved fast size fits behind'
        · rw [byName behind, byId, observe_callPlugin_key plugin (.name fnName) (.id fnId) dev ctx same, empty]
      result := fun fnId => rfl }

/-- A plugin that returns its arguments. -/
def echo (argsSize : Nat) : PluginInfo Unit where
  fn _ args world := (⟨args.take argsSize, none⟩, world)
  argsSize := argsSize
  retSize := argsSize
  ret_le _ args _ := by
    rw [List.length_take]
    exact Nat.min_le_left _ _

/-- The server of `oneDevice` with that plugin. -/
def echoing (argsSize : Nat) : Tables Unit :=
  { HwioServer.oneDevice with
    plugins := AList.singleton (text "echo") (echo argsSize)
    pluginsFast := [echo argsSize]
    pluginsFastNames := [text "echo"] }

/-- A request that meets a connection which has the device. -/
def echoRequest : Ctx Unit := ⟨[], [], [some 0], (), []⟩

theorem empty_call_intact :
    ArgsIntact (echoing 0) echoRequest 0 (echo 0) 0 (text "echo") [] (some 0) := by
  have found : (echoing 0).findPlugin (text "echo") = some (echo 0) := rfl
  exact (remote_call_intact_iff (echoing 0) echoRequest rfl (by decide) (by decide) found rfl
    (some 0)).mpr ⟨rfl, by decide⟩

/-- A call with the argument 7 behind a QUERY, in a run: the plugin gets what
lies behind the frame, which is zero. -/
theorem last_argument_lost :
    let start := HwioServer.prepared (echoing 1) 3 (List.replicate bufferSize 0) ()
    ∃ server header ctx, HwioServer.Reached start server ∧
      Requested (echoing 1) start.service server.trace 0 header ctx ∧
      Frame.received header ctx.rx = (Op.remoteCall 0 (text "echo") [7] (some 1)).frame ∧
      (handleMsg (echoing 1) header ctx).2.calls = [.plugin (.name (text "echo")) 0 [0]] := by
  intro start
  let call := Op.remoteCall 0 (text "echo") [7] (some 1)
  let server := HwioServer.loneRun (echoing 1) (List.replicate bufferSize 0) ()
    (HwioServer.queryFrame ++ call.frame.bytes)
  have dispatched : server.trace[11]? =
      some (.dispatched 0 399 call.frame.header call.frame.body) := by decide +kernel
  refine ⟨server, _, _, HwioServer.loneRun_reached .., Requested.of_getElem? dispatched, ?_, ?_⟩
  · decide +kernel
  · decide +kernel

end Hwio
