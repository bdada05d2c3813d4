import Hwio.Client.Hub
import Hwio.Client.RemoteAccess
import Hwio.Client.RemoteCalls

/-!
Contract: requests for devices and plugins, as the hub has them.

Owns that `handle_msg` does for a PING, a READ, a WRITE, a call of a plugin and
the question for its id what the hub does for the calls that build them.

Does not own lookups.
-/

namespace Hwio

open Library HwioServer

variable {World : Type}

/-! ## Frames of a reply -/

/-- The header of a frame that begins what is sent is the one in the buffer. -/
theorem Frame.header_of_prefix {frame : Frame} {tx : List Byte} {count : Nat}
    (front : frame.bytes <+: load tx 0 count) : frame.header = replyHeader tx := by
  have length := front.length_le
  rw [frame.bytes_length, load_length] at length
  obtain ⟨rest, split⟩ := front
  rw [← Nat.add_sub_of_le (Nat.le_of_add_right_le length), load_add, Frame.bytes,
    List.append_assoc] at split
  have headers := List.append_inj_left split (by rw [HwioPacketHeader.bytes_length, load_length])
  exact (HwioPacketHeader.at_of_load headers.symm).symm

/-- The frame that is all that is sent. -/
theorem Frame.of_reply {frame : Frame} {tx : List Byte} {count : Nat}
    (bytes : frame.bytes = load tx 0 (sizeofHeader + count)) :
    frame.header = replyHeader tx ∧ frame.body = load tx sizeofHeader count := by
  have front : frame.bytes <+: load tx 0 (sizeofHeader + count) := by
    rw [bytes]
  refine ⟨Frame.header_of_prefix front, ?_⟩
  rw [load_add, Nat.zero_add, Frame.bytes] at bytes
  exact List.append_inj_right bytes (by rw [HwioPacketHeader.bytes_length, load_length])

/-- A call that waits for a device reply throws when it takes a message. -/
theorem finish_of_msg {op : Op} (waits : op.waits = true) (asks : op ≠ .ping)
    {h : HwioPacketHeader} (msg : h.command = HwioCmd.msg.code) (rx : List Byte)
    (seen : List HwioDeviceRemote) : ∃ exn, (op.finish h rx seen).1 = .error exn := by
  have wrong : ∀ expected : HwioCmd, expected ≠ .msg → ∀ result,
      ∃ exn, deviceReply h rx expected result = .error exn := by
    intro expected other result
    have differs : h.command ≠ expected.code := by
      rw [msg]
      intro same
      have known := congrArg HwioCmd.ofCode same
      rw [HwioCmd.ofCode_code, HwioCmd.ofCode_code] at known
      exact other (Option.some.inj known).symm
    rw [deviceReply, assertResponse, if_pos differs]
    exact ⟨_, rfl⟩
  cases op with
  | ping => exact absurd rfl asks
  | findDevices spec =>
      have differs : h.command ≠ HwioCmd.queryResp.code := by
        rw [msg]
        decide
      rw [Op.finish, if_pos differs]
      exact ⟨_, rfl⟩
  | read id offset n => exact wrong .readResp (by decide) _
  | write id offset data => cases waits
  | remoteCall id fnName args retSize => exact wrong .remoteCallRet (by decide) _
  | remoteCallFast id fnId args retSize => exact wrong .remoteCallRet (by decide) _
  | getRpcFnId id fnName => exact wrong .getRemoteCallIdResp (by decide) _
  | isRpcAvailable id fnName => exact wrong .getRemoteCallIdResp (by decide) _

/-- What an error frame makes of a call. -/
theorem refused_of_sendErr {tables : Tables World} {op : Op} {header : HwioPacketHeader}
    {ctx left : Ctx World} {errCode : HwioServerError} {msg : Text} (asks : op ≠ .ping)
    (handled : handleMsg tables header ctx = left.sendErr errCode msg) (waits : op.waits = true)
    (frame : Frame) (rx : List Byte) (seen : List HwioDeviceRemote)
    (front : frame.bytes <+: replyBytes (handleMsg tables header ctx)) :
    ∃ exn, (op.finish frame.header rx seen).1 = .error exn := by
  rw [handled] at front
  have command := Frame.header_of_prefix front
  apply finish_of_msg waits asks
  rw [command]
  exact congrArg HwioPacketHeader.command (replyHeader_sendErr errCode msg left.tx)

/-- A request that is refused changes nothing. -/
theorem performed_of_sendErr {tables : Tables World} {owner : ClientPtr} {op : Op}
    {header : HwioPacketHeader} {ctx left : Ctx World} {hub : Hub World}
    {errCode : HwioServerError} {msg : Text} (asks : op ≠ .ping)
    (handled : handleMsg tables header ctx = left.sendErr errCode msg) {world : World}
    (same : left.world = world) (devices : left.devices = (hub.held owner).map some) :
    Performed tables op header ctx (hub.held owner) .refused world (hub.held owner) where
  world := by
    rw [handled]
    exact same
  devices := by
    rw [handled]
    exact devices
  inTurn result impossible := by cases impossible
  answered result impossible := by cases impossible
  returned result impossible := by cases impossible
  refused _ := refused_of_sendErr asks handled

/-- A request that nothing is promised for. -/
theorem performed_unpromised {tables : Tables World} {op : Op} {header : HwioPacketHeader}
    {ctx : Ctx World} {held held' : List DevPtr} {world : World}
    (left : (handleMsg tables header ctx).2.world = world)
    (devices : (handleMsg tables header ctx).2.devices = held'.map some) :
    Performed tables op header ctx held .unpromised world held' where
  world := left
  devices := devices
  inTurn result impossible := by cases impossible
  answered result impossible := by cases impossible
  returned result impossible := by cases impossible
  refused impossible := by cases impossible

/-- A device request that is answered in one frame of the expected command. -/
theorem performed_of_reply {tables : Tables World} {owner : ClientPtr} {op : Op}
    {header : HwioPacketHeader} {ctx left : Ctx World} {hub : Hub World} {expected : HwioCmd}
    {size : Nat} {result : Result}
    (handled : handleMsg tables header ctx = (.ok ⟨false, sizeofHeader + size⟩, left))
    (sent : replyHeader left.tx = ⟨expected.code, UInt16.ofNat size⟩)
    (short : sizeofHeader + size ≤ bufferSize)
    {world : World} (same : left.world = world)
    (devices : left.devices = (hub.held owner).map some)
    (turn : OneFrame (handleMsg tables header ctx) → InTurn tables header ctx op)
    (finished : ∀ (frame : Frame) rx seen, frame.header.command = expected.code →
      frame.body = load left.tx sizeofHeader size → load rx 0 size = frame.body →
        op.finish frame.header rx seen = (.ok result, seen)) :
    Performed tables op header ctx (hub.held owner) (.returned result) world (hub.held owner) where
  world := by
    rw [handled]
    exact same
  devices := by
    rw [handled]
    exact devices
  inTurn _ _ := by
    have small : size < 65536 := by
      simp only [sizeofHeader, bufferSize] at short
      omega
    apply turn
    rw [handled, oneFrame_ok_iff, sent]
    exact Or.inr (congrArg (sizeofHeader + ·) (UInt16.toNat_ofNat_of_lt' small).symm)
  answered _ _ := by
    rw [handled]
    exact ⟨_, rfl, short, fun _ => by simp [sizeofHeader]⟩
  returned other same _ frame rx seen bytes taken known := by
    obtain rfl := Upshot.returned.inj same
    rw [handled] at bytes
    obtain ⟨head, body⟩ := Frame.of_reply bytes
    have length : frame.body.length = size := by rw [body, load_length]
    rw [length] at taken
    have done := finished frame rx seen (by rw [head, sent]) body taken
    rw [done]
    exact ⟨rfl, known⟩
  refused impossible := by cases impossible

/-! ## Questions for an id -/

/-- A name that ends inside its field is found there. -/
theorem cstr_of_field {memory : List Byte} {offset count : Nat} {name : Text} (free : 0 ∉ name)
    (short : name.length < count) (field : load memory offset count = strncpy name count) :
    cstr (memory.drop offset) = name := by
  have ends : 0 ∈ strncpy name count := by
    rw [strncpy_of_le free (Nat.le_of_lt short)]
    apply List.mem_append_right
    exact List.mem_replicate.mpr ⟨Nat.sub_ne_zero_of_lt short, rfl⟩
  have copied := cstr_strncpy free short []
  rw [List.append_nil] at copied
  rw [cstr_drop_of_load (field ▸ ends), field]
  exact copied

/-- What a call takes from the answer. -/
theorem taken_getRpcFnId {tx rx : List Byte} {position : Option Nat} {body : List Byte}
    (sent : body = load (getRpcFnIdReply tx position) sizeofHeader sizeofGetRemoteCallIdResp)
    (taken : load rx 0 sizeofGetRemoteCallIdResp = body) :
    rx.getD 0 0 = (if position.isSome then 1 else 0) ∧ loadU32 rx 1 = rpcFnId position := by
  have reply := load_getRpcFnIdReply tx position
  obtain ⟨_, behind⟩ := load_parts reply (HwioPacketHeader.bytes_length _)
  rw [Nat.zero_add, ← sent, ← taken, show sizeofGetRemoteCallIdResp = 1 + 4 from rfl,
    load_add, load_one] at behind
  obtain ⟨flag, word⟩ := List.cons.inj behind
  exact ⟨flag, loadU32_of_load word⟩

theorem getRpcFnId_frame_body {op : Op} {id : UInt16} {fnName : Text}
    (fields : op.fields = u16Bytes id ++ strncpy fnName maxNameLen)
    (counted : op.bodyLen = sizeofGetRemoteCallId) :
    op.frame.body = u16Bytes id ++ strncpy fnName maxNameLen := by
  have length : op.fields.length = sizeofGetRemoteCallId := by
    rw [fields, List.length_append, u16Bytes_length, strncpy_length]
    rfl
  have fits : op.Fits := by
    rw [Op.Fits, length]
    decide
  rw [Op.frame_body fits, counted, ← length, List.take_length, fields]

/-! ## Requests for a device -/

section

variable {tables : Tables World} {hub : Hub World} {owner : ClientPtr}
  {header : HwioPacketHeader} {ctx : Ctx World}

theorem Hub.Meets.device (meets : hub.Meets owner ctx) (id : UInt16) :
    clientGetDev ctx.devices id = hub.device owner id := by
  apply Option.ext
  intro dev
  rw [clientGetDev_eq_some, meets.devices, List.getElem?_map, Option.map_eq_some_iff]
  constructor
  · rintro ⟨held, place, same⟩
    cases same
    exact place
  · exact fun place => ⟨dev, place, rfl⟩

/-- What a request carries: its header, and the bytes of its body. -/
theorem carried_of_asked {op : Op} (asked : Frame.received header ctx.rx = op.frame) :
    HwioCmd.ofCode header.command = some op.command ∧
      header.bodyLen.toNat = op.frame.body.length ∧
      load ctx.rx 0 op.frame.body.length = op.frame.body := by
  obtain ⟨same, body⟩ := load_of_received asked
  rw [same]
  exact ⟨Op.ofCode_frame op, Frame.header_bodyLen_toNat op.frame, body⟩

variable (meets : hub.Meets owner ctx)

include meets

theorem performed_read {id : UInt16} {offset : UInt32} {n : Nat}
    (short : sizeofHeader + n ≤ bufferSize)
    (asked : Frame.received header ctx.rx = (Op.read id offset n).frame) :
    let done := hub.perform tables (owner, .read id offset n)
    Performed tables (.read id offset n) header ctx (hub.held owner) done.1 done.2.world
      (done.2.held owner) := by
  intro done
  obtain ⟨command, size, body⟩ := carried_of_asked asked
  rw [read_frame_body, Op.rdReq_length] at size body
  have small : n < 65536 := by
    simp only [sizeofHeader, bufferSize] at short
    omega
  obtain ⟨named, addr, count⟩ := rdReq_of_load small body
  have resolved := meets.device id
  have handled : handleMsg tables header ctx = handleRead tables header ctx := by
    rw [handleMsg, command]
    rfl
  rw [handleRead, if_neg (not_not_intro size)] at handled
  simp only [named, addr, count, resolved] at handled
  simp only [done, Hub.perform, Hub.onDevice]
  cases held : hub.device owner id with
  | none =>
      rw [held] at handled
      exact performed_of_sendErr (by simp) handled meets.world meets.devices
  | some dev =>
      rw [held] at handled
      simp only [meets.world] at handled
      simp only [Hub.acting, Hub.readUpshot, Hub.thrownUpshot]
      have full := (tables.device dev).read_all offset n hub.world
      cases thrown : ((tables.device dev).read offset n hub.world).1.thrown with
      | none =>
          rw [thrown] at handled
          have stored : ∀ memory, load (store memory sizeofHeader
              ((tables.device dev).read offset n hub.world).1.bytes) sizeofHeader n =
                ((tables.device dev).read offset n hub.world).1.bytes := by
            intro memory
            have same := load_store_same memory sizeofHeader
              ((tables.device dev).read offset n hub.world).1.bytes
            rwa [full thrown] at same
          apply performed_of_reply handled _ short rfl meets.devices
          · intro framed
            exact (handleMsg_oneFrame_iff tables header ctx).mp framed
          · intro frame rx seen reply body' taken
            rw [Op.finish, deviceReply, assertResponse, if_neg (not_not_intro reply), taken, body',
              stored]
          · simp only
            rw [replyHeader_store _ _ (Nat.le_refl _), replyHeader_setBodyLen,
              replyHeader_setCommand]
      | some exn =>
          rw [thrown] at handled
          simp only at handled ⊢
          cases runtime : exn.isRuntimeError with
          | true =>
              rw [runtime, if_pos rfl] at handled
              rw [if_pos rfl]
              exact performed_of_sendErr (by simp) handled rfl meets.devices
          | false =>
              rw [runtime, if_neg Bool.false_ne_true] at handled
              rw [if_neg Bool.false_ne_true]
              exact performed_unpromised (by rw [handled]) (by
                rw [handled]
                exact meets.devices)

theorem performed_write {id : UInt16} {offset : UInt32} {data : List Byte}
    (fits : (Op.write id offset data).Fits)
    (asked : Frame.received header ctx.rx = (Op.write id offset data).frame) :
    let done := hub.perform tables (owner, .write id offset data)
    Performed tables (.write id offset data) header ctx (hub.held owner) done.1 done.2.world
      (done.2.held owner) := by
  intro done
  obtain ⟨command, size, body⟩ := carried_of_asked asked
  have counted : (Op.write id offset data).bodyLen = (Op.write id offset data).fields.length :=
    Op.bulk_bodyLen rfl
  have fields : (Op.write id offset data).frame.body = rdReq id offset data.length ++ data := by
    rw [Op.frame_body fits, counted, List.take_length]
    rfl
  have bound := Op.bodyLen_lt fits
  have small : data.length < 65536 := by
    simp only [Op.bodyLen, sizeofWrReq] at bound
    omega
  rw [fields, List.length_append, Op.rdReq_length] at size body
  obtain ⟨request, payload⟩ := load_parts body (Op.rdReq_length id offset data.length)
  obtain ⟨named, addr, count⟩ := rdReq_of_load small request
  rw [Nat.zero_add] at payload
  have resolved := meets.device id
  have handled : handleMsg tables header ctx = handleWrite tables header ctx := by
    rw [handleMsg, command]
    rfl
  rw [handleWrite, if_neg (Nat.not_lt.mpr (size ▸ Nat.le_add_right _ _))] at handled
  simp only [named, addr, count, sizeofWrReq, payload, resolved] at handled
  simp only [done, Hub.perform]
  by_cases limit : maxDevices ≤ id.toNat
  · rw [if_pos limit] at handled
    rw [if_pos limit]
    exact performed_of_sendErr (by simp) handled meets.world meets.devices
  rw [if_neg limit] at handled
  rw [if_neg limit, Hub.onDevice]
  cases held : hub.device owner id with
  | none =>
      rw [held] at handled
      exact performed_of_sendErr (by simp) handled meets.world meets.devices
  | some dev =>
      rw [held] at handled
      simp only [meets.world] at handled
      simp only [Hub.acting, Hub.writeUpshot]
      cases thrown : ((tables.device dev).write offset data hub.world).1 with
      | none =>
          rw [thrown] at handled
          exact {
            world := by rw [handled]
            devices := by
              rw [handled]
              exact meets.devices
            inTurn := by
              intro _ _
              refine ⟨size ▸ Nat.le_add_right _ _, ?_, dev, ?_⟩
              · rw [named]
                exact Nat.lt_of_not_le limit
              · rw [named, resolved]
                exact held
            answered := fun _ _ => by
              rw [handled]
              exact ⟨0, rfl, Nat.zero_le _, fun waits => by cases waits⟩
            returned := fun _ _ waits => by cases waits
            refused := fun impossible => by cases impossible }
      | some exn =>
          rw [thrown] at handled
          exact performed_unpromised (by rw [handled]) (by
            rw [handled]
            exact meets.devices)

/-! ## Plugins -/

/-- The answer to a question for an id is the place of the function. -/
theorem handled_getRpcFnId {op : Op} {id : UInt16} {fnName : Text} (fits : FitsName fnName)
    (named : op.command = .getRemoteCallId)
    (body : op.frame.body = u16Bytes id ++ strncpy fnName maxNameLen)
    (asked : Frame.received header ctx.rx = op.frame) :
    handleMsg tables header ctx =
      match hub.device owner id with
      | none =>
        ({ ctx with tx := getRpcFnIdReply ctx.tx none } : Ctx World).sendErr .accessDenied
          (text "GET REMOTE CALL ID: device is not allocated")
      | some _ =>
        (.ok ⟨false, sizeofHeader + sizeofGetRemoteCallIdResp⟩,
          { ctx with tx := getRpcFnIdReply ctx.tx (Hub.position tables fnName) }) := by
  obtain ⟨command, size, carried⟩ := carried_of_asked asked
  rw [body, List.length_append, u16Bytes_length, strncpy_length] at size carried
  obtain ⟨word, field⟩ := load_parts carried (u16Bytes_length id)
  have target := loadU16_of_load word
  have name := cstr_of_field fits.1 fits.2 field
  have resolved := meets.device id
  rw [← target] at resolved
  have enough : sizeofGetRemoteCallId ≤ header.bodyLen.toNat := Nat.le_of_eq size.symm
  have handled : handleMsg tables header ctx = handleGetRpcFnId tables header ctx := by
    rw [handleMsg, command, named]
  rw [handled]
  cases held : hub.device owner id with
  | none =>
      rw [target, held, ← target] at resolved
      rw [handleGetRpcFnId, if_neg (Nat.not_lt.mpr enough)]
      simp only [resolved]
      rfl
  | some dev =>
      rw [target, held, ← target] at resolved
      rw [handleGetRpcFnId_resolved tables ctx enough resolved, name]
      rfl

theorem performed_getRpcFnId {id : UInt16} {fnName : Text} (fits : FitsName fnName)
    (asked : Frame.received header ctx.rx = (Op.getRpcFnId id fnName).frame) :
    let done := hub.perform tables (owner, .getRpcFnId id fnName)
    Performed tables (.getRpcFnId id fnName) header ctx (hub.held owner) done.1 done.2.world
      (done.2.held owner) := by
  intro done
  have handled := @handled_getRpcFnId _ tables _ _ _ _ meets _ _ _ fits rfl
    (getRpcFnId_frame_body rfl rfl) asked
  simp only [done, Hub.perform, Hub.onDevice]
  cases held : hub.device owner id with
  | none =>
      rw [held] at handled
      exact performed_of_sendErr (by simp) handled meets.world meets.devices
  | some dev =>
      rw [held] at handled
      apply performed_of_reply handled (replyHeader_getRpcFnIdReply _ _) (by decide) meets.world
        meets.devices
      · exact (handleMsg_oneFrame_iff tables header ctx).mp
      · intro frame rx seen reply body taken
        obtain ⟨_, word⟩ := taken_getRpcFnId body taken
        rw [Op.finish, deviceReply, assertResponse, if_neg (not_not_intro reply), word]

theorem performed_isRpcAvailable {id : UInt16} {fnName : Text} (fits : FitsName fnName)
    (asked : Frame.received header ctx.rx = (Op.isRpcAvailable id fnName).frame) :
    let done := hub.perform tables (owner, .isRpcAvailable id fnName)
    Performed tables (.isRpcAvailable id fnName) header ctx (hub.held owner) done.1 done.2.world
      (done.2.held owner) := by
  intro done
  have handled := @handled_getRpcFnId _ tables _ _ _ _ meets _ _ _ fits rfl
    (getRpcFnId_frame_body rfl rfl) asked
  simp only [done, Hub.perform, Hub.onDevice]
  cases held : hub.device owner id with
  | none =>
      rw [held] at handled
      exact performed_of_sendErr (by simp) handled meets.world meets.devices
  | some dev =>
      rw [held] at handled
      apply performed_of_reply handled (replyHeader_getRpcFnIdReply _ _) (by decide) meets.world
        meets.devices
      · exact (handleMsg_oneFrame_iff tables header ctx).mp
      · intro frame rx seen reply body taken
        obtain ⟨flag, _⟩ := taken_getRpcFnId body taken
        rw [Op.finish, deviceReply, assertResponse, if_neg (not_not_intro reply), flag]
        cases Hub.position tables fnName <;> simp

/-! ## Plugin calls -/

/-- A plugin is run with the arguments of its caller. -/
theorem performed_callPlugin {op : Op} {plugin : PluginInfo World} {key : PluginKey}
    {dev : DevPtr} {argsOffset : Nat} {args : List Byte} {retSize : Option Nat}
    (handled : handleMsg tables header ctx = callPlugin plugin key dev argsOffset ctx)
    (passed : load ctx.rx argsOffset plugin.argsSize = args) (asks : op ≠ .ping)
    (waits : op.waits = retSize.isSome)
    (finish : ∀ h rx seen, op.finish h rx seen =
      (deviceReply h rx .remoteCallRet (.bytes (load rx 0 (retSize.getD 0))), seen))
    (framed : retSize.isSome → OneFrame (handleMsg tables header ctx) →
      InTurn tables header ctx op)
    (silent : retSize = none → replyBytes (handleMsg tables header ctx) = [] →
      InTurn tables header ctx op) :
    let done := hub.acting (plugin.fn dev args) (Hub.pluginUpshot plugin retSize)
    Performed tables op header ctx (hub.held owner) done.1 done.2.world (done.2.held owner) := by
  intro done
  unfold callPlugin at handled
  simp only [passed, meets.world] at handled
  simp only [done, Hub.acting, Hub.pluginUpshot, Hub.thrownUpshot]
  have most := plugin.ret_le dev args hub.world
  generalize plugin.fn dev args hub.world = out at handled most ⊢
  cases thrown : out.1.thrown with
  | none =>
      rw [thrown] at handled
      simp only at handled ⊢
      by_cases returns : Hub.Returns plugin retSize out.1
      case neg =>
        rw [if_neg returns]
        by_cases empty : plugin.retSize ≠ 0
        · rw [if_pos empty] at handled
          exact performed_unpromised (by rw [handled]) (by
            rw [handled]
            exact meets.devices)
        · rw [if_neg empty] at handled
          exact performed_unpromised (by rw [handled]) (by
            rw [handled]
            exact meets.devices)
      rw [if_pos returns]
      obtain ⟨all, expected, some, short⟩ := returns
      cases retSize with
      | none =>
          have empty : plugin.retSize = 0 := expected.symm
          rw [if_neg (not_not_intro empty)] at handled
          exact {
            world := by rw [handled]
            devices := by
              rw [handled]
              exact meets.devices
            inTurn := fun _ _ => silent rfl (by
              rw [handled]
              rfl)
            answered := fun _ _ => by
              rw [handled]
              refine ⟨0, rfl, Nat.zero_le _, fun waiting => ?_⟩
              rw [waits] at waiting
              cases waiting
            returned := by
              intro _ _ waiting
              rw [waits] at waiting
              cases waiting
            refused := fun impossible => by cases impossible }
      | some size =>
          obtain rfl : size = plugin.retSize := expected
          have positive : plugin.retSize ≠ 0 := fun zero => some (congrArg Option.some zero)
          have stored : ∀ memory, load (store memory sizeofHeader out.1.ret) sizeofHeader
              plugin.retSize = out.1.ret := by
            intro memory
            have same := load_store_same memory sizeofHeader out.1.ret
            rwa [all] at same
          rw [if_pos positive] at handled
          apply performed_of_reply handled _ _ rfl meets.devices (framed rfl)
          · intro frame rx seen reply body taken
            rw [finish, deviceReply, assertResponse, if_neg (not_not_intro reply), Option.getD_some,
              taken, body, stored]
          · simp only
            rw [replyHeader_store _ _ (Nat.le_refl _), replyHeader_setBodyLen,
              replyHeader_setCommand]
          · exact short
  | some exn =>
      rw [thrown] at handled
      simp only at handled ⊢
      cases runtime : exn.isRuntimeError with
      | true =>
          rw [runtime, if_pos rfl] at handled
          rw [if_pos rfl]
          exact performed_of_sendErr asks handled rfl meets.devices
      | false =>
          rw [runtime, if_neg Bool.false_ne_true] at handled
          rw [if_neg Bool.false_ne_true]
          exact performed_unpromised (by rw [handled]) (by
            rw [handled]
            exact meets.devices)

theorem performed_remoteCall {id : UInt16} {fnName : Text} {args : List Byte}
    {retSize : Option Nat} (intact : (Op.remoteCall id fnName args retSize).Intact tables)
    (asked : Frame.received header ctx.rx = (Op.remoteCall id fnName args retSize).frame) :
    let done := hub.perform tables (owner, .remoteCall id fnName args retSize)
    Performed tables (.remoteCall id fnName args retSize) header ctx (hub.held owner) done.1
      done.2.world (done.2.held owner) := by
  intro done
  obtain ⟨rfl, free, short, empty⟩ := intact
  obtain ⟨command, size, body⟩ := carried_of_asked asked
  rw [remoteCall_frame_body, List.length_append, u16Bytes_length, strncpy_length] at size body
  obtain ⟨word, field⟩ := load_parts body (u16Bytes_length id)
  have target := loadU16_of_load word
  have name := cstr_of_field free short field
  have enough : ¬ header.bodyLen.toNat < sizeofRemoteCall - 1 :=
    Nat.not_lt.mpr (Nat.le_of_eq size.symm)
  have resolved := meets.device id
  have dispatched : handleMsg tables header ctx = handleRemoteCall tables header ctx := by
    rw [handleMsg, command]
    rfl
  have handled := dispatched
  rw [handleRemoteCall, if_neg enough] at handled
  simp only [target, name, resolved] at handled
  simp only [done, Hub.perform, Hub.onDevice]
  cases held : hub.device owner id with
  | none =>
      rw [held] at handled
      exact performed_of_sendErr (by simp) handled meets.world meets.devices
  | some dev =>
      rw [held] at handled
      simp only at handled ⊢
      cases found : tables.findPlugin fnName with
      | none =>
          rw [found] at handled
          exact performed_of_sendErr (by simp) handled meets.world meets.devices
      | some plugin =>
          rw [found] at handled
          apply performed_callPlugin meets handled _ (by simp) rfl (fun _ _ _ => rfl)
          · intro waits framed
            cases retSize with
            | none => cases waits
            | some size => exact (handleMsg_oneFrame_iff tables header ctx).mp framed
          · rintro rfl silent
            rw [dispatched] at silent
            exact (handleRemoteCall_silent_iff tables header ctx).mp silent
          · rw [empty plugin found]
            rfl

theorem performed_remoteCallFast {id : UInt16} {fnId : UInt32} {args : List Byte}
    {retSize : Option Nat} (intact : (Op.remoteCallFast id fnId args retSize).Intact tables)
    (fits : (Op.remoteCallFast id fnId args retSize).Fits)
    (asked : Frame.received header ctx.rx = (Op.remoteCallFast id fnId args retSize).frame) :
    let done := hub.perform tables (owner, .remoteCallFast id fnId args retSize)
    Performed tables (.remoteCallFast id fnId args retSize) header ctx (hub.held owner) done.1
      done.2.world (done.2.held owner) := by
  intro done
  obtain ⟨command, size, body⟩ := carried_of_asked asked
  rw [remoteCallFast_frame_body fits, List.length_append, List.length_append, u16Bytes_length,
    u32Bytes_length] at size body
  obtain ⟨word, behind⟩ := load_parts body (u16Bytes_length id)
  obtain ⟨number, passed⟩ := load_parts behind (u32Bytes_length fnId)
  have target := loadU16_of_load word
  have named := loadU32_of_load number
  have enough : ¬ header.bodyLen.toNat < sizeofRemoteCallFast - 1 := by
    rw [size]
    simp only [sizeofRemoteCallFast]
    omega
  have resolved := meets.device id
  have dispatched : handleMsg tables header ctx = handleFastRemoteCall tables header ctx := by
    rw [handleMsg, command]
    rfl
  have handled := dispatched
  rw [handleFastRemoteCall, if_neg enough] at handled
  simp only [target, named, resolved] at handled
  simp only [done, Hub.perform, Hub.onDevice]
  cases held : hub.device owner id with
  | none =>
      rw [held] at handled
      exact performed_of_sendErr (by simp) handled meets.world meets.devices
  | some dev =>
      rw [held] at handled
      simp only at handled ⊢
      cases found : tables.pluginsFast[fnId.toNat]? with
      | none =>
          rw [found] at handled
          exact performed_of_sendErr (by simp) handled meets.world meets.devices
      | some plugin =>
          rw [found] at handled
          apply performed_callPlugin meets handled _ (by simp) rfl (fun _ _ _ => rfl)
          · intro waits framed
            cases retSize with
            | none => cases waits
            | some size => exact (handleMsg_oneFrame_iff tables header ctx).mp framed
          · rintro rfl silent
            rw [dispatched] at silent
            exact (handleFastRemoteCall_silent_iff tables header ctx).mp silent
          · rw [intact plugin found]
            exact passed

theorem performed_ping (asked : Frame.received header ctx.rx = Op.ping.frame) :
    let done := hub.perform tables (owner, .ping)
    Performed tables .ping header ctx (hub.held owner) done.1 done.2.world
      (done.2.held owner) := by
  intro done
  obtain ⟨same, _⟩ := load_of_received asked
  have empty : header.bodyLen = 0 := by
    rw [same]
    rfl
  have handled : handleMsg tables header ctx = handlePing header ctx := by
    rw [handleMsg, same]
    rfl
  rw [handlePing, if_neg (not_not_intro empty)] at handled
  have sent : replyHeader (setBodyLen (setCommand ctx.tx .pingReply) 0) =
      ⟨HwioCmd.pingReply.code, UInt16.ofNat 0⟩ := by
    rw [replyHeader_setBodyLen, replyHeader_setCommand]
  exact {
    world := by
      rw [handled]
      exact meets.world
    devices := by
      rw [handled]
      exact meets.devices
    inTurn := by
      intro _ _
      apply (handleMsg_oneFrame_iff tables header ctx).mp
      rw [handled, oneFrame_ok_iff, sent]
      exact Or.inr rfl
    answered := by
      intro _ _
      rw [handled]
      exact ⟨_, rfl, by decide, fun _ => by simp [sizeofHeader]⟩
    returned := by
      intro result returned _ frame rx seen bytes taken known
      rw [handled] at bytes
      have head := (@Frame.of_reply frame _ 0 bytes).1.trans sent
      obtain rfl := Upshot.returned.inj returned
      refine ⟨?_, by rw [Op.finish]; split <;> exact known⟩
      rw [Op.finish, head, if_neg (by simp)]
    refused := fun impossible => by cases impossible }

end

end Hwio
