import Hwio.Server.Utils

/-!
Contract: `hwio_server_remote_call.cpp`, the handlers of plugin calls by name
and by id and of the query for an id.
-/

namespace Hwio

open Library

variable {World : Type}

/-- The common end of both plugin calls: run the plugin with the arguments
that start at `argsOffset` of the request and frame its result. -/
def callPlugin (plugin : PluginInfo World) (key : PluginKey) (dev : DevPtr) (argsOffset : Nat)
    (ctx : Ctx World) : Handled World :=
  let args := load ctx.rx argsOffset plugin.argsSize
  let tx := setBodyLen (setCommand ctx.tx .remoteCallRet) plugin.retSize
  let result := plugin.fn dev args ctx.world
  let ctx := { ctx with
    tx := store tx sizeofHeader result.1.ret
    world := result.2
    calls := ctx.calls ++ [.plugin key dev args] }
  match result.1.thrown with
  | none =>
    if plugin.retSize ≠ 0 then (.ok ⟨false, sizeofHeader + plugin.retSize⟩, ctx)
    else (.ok ⟨false, 0⟩, ctx)
  | some exn =>
    if exn.isRuntimeError then
      ctx.sendErr .ioError (text "Call of plugin function raised and exception " ++ exn.what)
    else (.error (.thrown exn), ctx)

/-- However a plugin call ends, the plugin got the bytes at the arguments. -/
theorem callPlugin_calls (plugin : PluginInfo World) (key : PluginKey) (dev : DevPtr)
    (argsOffset : Nat) (ctx : Ctx World) :
    (callPlugin plugin key dev argsOffset ctx).2.calls =
      ctx.calls ++ [.plugin key dev (load ctx.rx argsOffset plugin.argsSize)] := by
  unfold callPlugin
  simp only
  split
  · split <;> rfl
  · split <;> rfl

/-- `HwioServer::handle_remote_call` -/
def handleRemoteCall (tables : Tables World) (header : HwioPacketHeader) (ctx : Ctx World) :
    Handled World :=
  if header.bodyLen.toNat < sizeofRemoteCall - 1 then
    ctx.sendErr .malformedPacket (text "REMOTE CALL: size too small")
  else
    match clientGetDev ctx.devices (loadU16 ctx.rx 0) with
    | none => ctx.sendErr .accessDenied (text "REMOTE CALL: device is not allocated")
    | some dev =>
      let fnName := cstr (ctx.rx.drop 2)
      match tables.findPlugin fnName with
      | none =>
        ctx.sendErr .malformedPacket
          (text "REMOTE CALL: RPC function " ++ fnName ++ text " not registered on server")
      | some plugin => callPlugin plugin (.name fnName) dev sizeofRemoteCall ctx

/-- `HwioServer::handle_fast_remote_call` -/
def handleFastRemoteCall (tables : Tables World) (header : HwioPacketHeader) (ctx : Ctx World) :
    Handled World :=
  if header.bodyLen.toNat < sizeofRemoteCallFast - 1 then
    ctx.sendErr .malformedPacket (text "REMOTE CALL: size too small")
  else
    match clientGetDev ctx.devices (loadU16 ctx.rx 0) with
    | none => ctx.sendErr .accessDenied (text "REMOTE CALL: device is not allocated")
    | some dev =>
      let fnId := loadU32 ctx.rx 2
      match tables.pluginsFast[fnId.toNat]? with
      | none =>
        ctx.sendErr .malformedPacket
          (text "REMOTE CALL: RPC function with id " ++ decimal fnId.toNat ++
            text " is not registered on server")
      | some plugin => callPlugin plugin (.id fnId) dev sizeofRemoteCallFast ctx

/-- `resp->body` of `handle_get_rpc_fn_id` -/
def setGetRemoteCallIdResp (tx : List Byte) (found : Bool) (fnId : UInt32) : List Byte :=
  store (store tx sizeofHeader [if found then 1 else 0]) (sizeofHeader + 1) (u32Bytes fnId)

/-- `HwioServer::handle_get_rpc_fn_id`; the id `-1` stands for no function. -/
def handleGetRpcFnId (tables : Tables World) (header : HwioPacketHeader) (ctx : Ctx World) :
    Handled World :=
  if header.bodyLen.toNat < sizeofGetRemoteCallId then
    ctx.sendErr .malformedPacket (text "GET REMOTE CALL ID: size too small")
  else
    let tx := setBodyLen (setCommand ctx.tx .getRemoteCallIdResp) sizeofGetRemoteCallIdResp
    let ctx := { ctx with tx := setGetRemoteCallIdResp tx false (-1) }
    match clientGetDev ctx.devices (loadU16 ctx.rx 0) with
    | none => ctx.sendErr .accessDenied (text "GET REMOTE CALL ID: device is not allocated")
    | some _ =>
      let fnName := cstr (ctx.rx.drop 2)
      let ctx := match tables.pluginsFastNames.findIdx? (fun name => fnName = name) with
        | none => ctx
        | some index => { ctx with tx := setGetRemoteCallIdResp ctx.tx true (UInt32.ofNat index) }
      (.ok ⟨false, sizeofHeader + (replyHeader ctx.tx).bodyLen.toNat⟩, ctx)

/-! ## The answer of GET_REMOTE_CALL_ID -/

/-- The buffer with the answer for the position of a name. -/
def getRpcFnIdReply (tx : List Byte) (position : Option Nat) : List Byte :=
  let tx := setGetRemoteCallIdResp
    (setBodyLen (setCommand tx .getRemoteCallIdResp) sizeofGetRemoteCallIdResp) false (-1)
  match position with
  | none => tx
  | some index => setGetRemoteCallIdResp tx true (UInt32.ofNat index)

/-- The id that the answer carries. -/
def rpcFnId : Option Nat → UInt32
  | none => -1
  | some index => UInt32.ofNat index

@[simp] theorem replyHeader_setGetRemoteCallIdResp (tx : List Byte) (found : Bool)
    (fnId : UInt32) : replyHeader (setGetRemoteCallIdResp tx found fnId) = replyHeader tx := by
  rw [setGetRemoteCallIdResp, replyHeader_store _ _ (Nat.le_add_right _ _),
    replyHeader_store _ _ (Nat.le_refl _)]

theorem replyHeader_getRpcFnIdReply (tx : List Byte) (position : Option Nat) :
    replyHeader (getRpcFnIdReply tx position) =
      ⟨HwioCmd.getRemoteCallIdResp.code, UInt16.ofNat sizeofGetRemoteCallIdResp⟩ := by
  unfold getRpcFnIdReply
  cases position <;> simp

theorem load_setGetRemoteCallIdResp (tx : List Byte) (found : Bool) (fnId : UInt32) :
    load (setGetRemoteCallIdResp tx found fnId) 0 (sizeofHeader + sizeofGetRemoteCallIdResp) =
      load tx 0 sizeofHeader ++ ((if found then 1 else 0) :: u32Bytes fnId) := by
  have flag := load_store_same tx sizeofHeader [if found then 1 else 0]
  have word := load_store_same (store tx sizeofHeader [if found then 1 else 0]) (sizeofHeader + 1)
    (u32Bytes fnId)
  rw [List.length_singleton] at flag
  rw [u32Bytes_length] at word
  rw [setGetRemoteCallIdResp, load_add, show sizeofGetRemoteCallIdResp = 1 + 4 from rfl, load_add,
    Nat.zero_add, word, load_store_apart _ (Or.inl (by omega)),
    load_store_apart _ (Or.inl (by omega)), load_store_apart _ (Or.inl (by omega)), flag,
    List.singleton_append]

/-- The answer is a header, whether the name was found, and its id. -/
theorem load_getRpcFnIdReply (tx : List Byte) (position : Option Nat) :
    load (getRpcFnIdReply tx position) 0 (sizeofHeader + sizeofGetRemoteCallIdResp) =
      (HwioPacketHeader.mk HwioCmd.getRemoteCallIdResp.code
        (UInt16.ofNat sizeofGetRemoteCallIdResp)).bytes ++
        ((if position.isSome then 1 else 0) :: u32Bytes (rpcFnId position)) := by
  have header : ∀ (memory : List Byte) found fnId,
      load (setGetRemoteCallIdResp memory found fnId) 0 sizeofHeader =
        load memory 0 sizeofHeader := by
    intro memory found fnId
    rw [setGetRemoteCallIdResp, load_store_apart _ (Or.inl (by omega)),
      load_store_apart _ (Or.inl (by omega))]
  have start : load (setBodyLen (setCommand tx .getRemoteCallIdResp) sizeofGetRemoteCallIdResp) 0
      sizeofHeader = (HwioPacketHeader.mk HwioCmd.getRemoteCallIdResp.code
        (UInt16.ofNat sizeofGetRemoteCallIdResp)).bytes := load_header tx _ _
  unfold getRpcFnIdReply
  cases position with
  | none =>
      simp only
      rw [load_setGetRemoteCallIdResp, start]
      rfl
  | some index =>
      simp only
      rw [load_setGetRemoteCallIdResp, header, start]
      rfl

/-- A request for the id of a name that is long enough and names a device of
the client is answered with the position of the name. -/
theorem handleGetRpcFnId_resolved (tables : Tables World) {header : HwioPacketHeader}
    (ctx : Ctx World) (size : sizeofGetRemoteCallId ≤ header.bodyLen.toNat) {dev : DevPtr}
    (resolved : clientGetDev ctx.devices (loadU16 ctx.rx 0) = some dev) :
    handleGetRpcFnId tables header ctx =
      (.ok ⟨false, sizeofHeader + sizeofGetRemoteCallIdResp⟩,
        { ctx with
          tx := getRpcFnIdReply ctx.tx
            (tables.pluginsFastNames.findIdx? fun name => cstr (ctx.rx.drop 2) = name) }) := by
  unfold handleGetRpcFnId getRpcFnIdReply
  rw [if_neg (Nat.not_lt.mpr size)]
  simp only [resolved]
  cases tables.pluginsFastNames.findIdx? fun name => cstr (ctx.rx.drop 2) = name with
  | none =>
      simp only [replyHeader_setGetRemoteCallIdResp, replyHeader_setBodyLen]
      rfl
  | some index =>
      simp only [replyHeader_setGetRemoteCallIdResp, replyHeader_setBodyLen]
      rfl

end Hwio
