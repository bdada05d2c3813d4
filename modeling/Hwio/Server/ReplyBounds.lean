import Mathlib.Algebra.GroupWithZero.Nat
import Mathlib.Data.List.Induction
import Hwio.Server.Registration
import Hwio.Server.ReplyFrame

/-!
Contract: when a reply stays inside `tx_buffer`.

Owns the number of body bytes of a reply before it is converted to 16 bits, the
requests whose reply fits the buffer, and the runs of such requests.

Does not own whether a reply is one frame.
-/

namespace Hwio

open Library

variable {World : Type}

/-! ## Replies that fit -/

/-- `plugin.ret_size` of the plugin that a call chose. -/
def calledRetSize (tables : Tables World) : Call → Nat
  | .plugin (.name name) _ _ => ((tables.findPlugin name).map PluginInfo.retSize).getD 0
  | .plugin (.id id) _ _ => ((tables.pluginsFast[id.toNat]?).map PluginInfo.retSize).getD 0
  | _ => 0

def readCount : Call → Nat
  | .read _ _ count => count
  | _ => 0

/-- The number of body bytes that a reply has by what was done for it. -/
def bodyBytes (tables : Tables World) (ctx : Ctx World) : Nat :=
  match HwioCmd.ofCode (replyHeader ctx.tx).command with
  | some .readResp => (ctx.calls.map readCount).sum
  | some .queryResp => sizeofDevId * (foundIn ctx.calls).length
  | some .remoteCallRet => (ctx.calls.map (calledRetSize tables)).sum
  | some .msg => 4 + (cstr (ctx.tx.drop (sizeofHeader + 4))).length
  | some .getRemoteCallId => sizeofGetRemoteCallIdResp
  | _ => 0

/-- Nothing was stored behind `tx_buffer`, the reply and its device ids lie
inside it, and the body length was not truncated. -/
structure ReplyFits (tables : Tables World) (handled : Handled World) : Prop where
  inside : handled.2.tx.length = bufferSize
  size : ∀ res, handled.1 = .ok res → res.txSize ≤ bufferSize
  ids : ∀ res, handled.1 = .ok res → ∀ index < (foundIn handled.2.calls).length,
    sizeofHeader + sizeofDevId * (index + 1) ≤ res.txSize
  body : ∀ res, handled.1 = .ok res → res.txSize ≠ 0 →
    bodyBytes tables handled.2 < 65536 ∧
      (replyHeader handled.2.tx).bodyLen.toNat = bodyBytes tables handled.2

/-- The largest body that fits, and the largest number of ids. -/
def maxReplyBody : Nat := bufferSize - sizeofHeader
def maxReplyIds : Nat := maxReplyBody / sizeofDevId

/-- No reply is built. -/
theorem replyFits_error {tables : Tables World} {stop : Stop} {ctx : Ctx World}
    (inside : ctx.tx.length = bufferSize) : ReplyFits tables (.error stop, ctx) where
  inside := inside
  size _ impossible := by cases impossible
  ids _ impossible := by cases impossible
  body _ impossible := by cases impossible

theorem replyFits_silent {tables : Tables World} {disconnect : Bool} {ctx : Ctx World}
    (inside : ctx.tx.length = bufferSize) (nothing : foundIn ctx.calls = []) :
    ReplyFits tables (.ok ⟨disconnect, 0⟩, ctx) where
  inside := inside
  size res same := by
    cases same
    exact Nat.zero_le _
  ids _ _ index below := by
    rw [nothing] at below
    cases below
  body res same some := by
    cases same
    exact absurd rfl some

/-- An error frame fits whatever its message is. -/
theorem replyFits_sendErr {tables : Tables World} {ctx : Ctx World}
    (inside : ctx.tx.length = bufferSize) (nothing : foundIn ctx.calls = [])
    (errCode : HwioServerError) (msg : Text) :
    ReplyFits tables (ctx.sendErr errCode msg) := by
  let tx := (sendErr errCode msg ctx.tx).2
  have length : tx.length = bufferSize := by
    rw [sendErr_length, inside]
    decide
  have header : replyHeader tx = ⟨HwioCmd.msg.code, UInt16.ofNat (4 + errMsgLen ctx.tx msg)⟩ :=
    replyHeader_sendErr errCode msg ctx.tx
  have message : (cstr (tx.drop (sizeofHeader + 4))).length = errMsgLen ctx.tx msg := by
    simp only [tx, sendErr, sendErrInt, errMsgLen, setBodyLen, setCommand]
    rw [store_drop_after _ (by simp [sizeofHeader]), store_drop_after _ (by simp [sizeofHeader]),
      store_drop_after _ (by simp [sizeofHeader])]
  have bound : (cstr (tx.drop (sizeofHeader + 4))).length ≤ bufferSize := by
    refine Nat.le_trans (cstr_length_le _) ?_
    rw [List.length_drop, length]
    exact Nat.sub_le _ _
  have body : bodyBytes tables { ctx with tx := tx } = 4 + errMsgLen ctx.tx msg := by
    unfold bodyBytes
    simp only [header, HwioCmd.ofCode_code]
    rw [message]
  have small : 4 + errMsgLen ctx.tx msg < 65536 := by
    rw [← message]
    simp only [bufferSize] at bound
    omega
  refine ⟨length, ?_, ?_, ?_⟩
  · intro res same
    cases same
    decide
  · intro res _ index below
    rw [show (foundIn (ctx.sendErr errCode msg).2.calls) = foundIn ctx.calls from rfl, nothing]
      at below
    cases below
  · intro res same _
    show bodyBytes tables { ctx with tx := tx } < 65536 ∧
      (replyHeader tx).bodyLen.toNat = bodyBytes tables { ctx with tx := tx }
    rw [body, header, UInt16.toNat_ofNat', Nat.mod_eq_of_lt small]
    exact ⟨small, rfl⟩

/-! ## Bodies stored behind the header -/

/-- The buffer after a header and a body were stored. -/
def storedReply (tx : List Byte) (cmd : HwioCmd) (size : Nat) (bytes : List Byte) : List Byte :=
  store (setBodyLen (setCommand tx cmd) size) sizeofHeader bytes

theorem storedReply_length_iff {tx : List Byte} (inside : tx.length = bufferSize)
    (cmd : HwioCmd) (size : Nat) (bytes : List Byte) :
    (storedReply tx cmd size bytes).length = bufferSize ↔ bytes.length ≤ maxReplyBody := by
  rw [storedReply, store_length, setBodyLen_length, setCommand_length, inside]
  simp only [maxReplyBody, bufferSize, sizeofHeader]
  omega

theorem replyHeader_storedReply (tx : List Byte) (cmd : HwioCmd) (size : Nat)
    (bytes : List Byte) :
    replyHeader (storedReply tx cmd size bytes) = ⟨cmd.code, UInt16.ofNat size⟩ := by
  rw [storedReply, replyHeader_store _ _ (Nat.le_refl _), replyHeader_setBodyLen,
    replyHeader_setCommand]

/-- A reply with a body fits when the body does. -/
theorem replyFits_body_iff {tables : Tables World} {ctx : Ctx World} {tx bytes : List Byte}
    {cmd : HwioCmd} {size : Nat} (inside : tx.length = bufferSize)
    (stored : ctx.tx = storedReply tx cmd size bytes) (nothing : foundIn ctx.calls = [])
    (delivered : bytes.length ≤ size) (counted : bodyBytes tables ctx = size) :
    ReplyFits tables (.ok ⟨false, sizeofHeader + size⟩, ctx) ↔ size ≤ maxReplyBody := by
  constructor
  · intro fits
    have total := fits.size _ rfl
    simp only [maxReplyBody, bufferSize, sizeofHeader] at *
    omega
  · intro small
    refine ⟨?_, ?_, ?_, ?_⟩
    · show ctx.tx.length = bufferSize
      rw [stored]
      exact (storedReply_length_iff inside cmd size bytes).mpr (Nat.le_trans delivered small)
    · intro res same
      cases same
      simp only [maxReplyBody, bufferSize, sizeofHeader] at *
      omega
    · intro res _ index below
      rw [nothing] at below
      cases below
    · intro res _ _
      have below : size < 65536 := by
        simp only [maxReplyBody, bufferSize, sizeofHeader] at small
        omega
      show bodyBytes tables ctx < 65536 ∧ (replyHeader ctx.tx).bodyLen.toNat = bodyBytes tables ctx
      rw [counted, stored, replyHeader_storedReply, UInt16.toNat_ofNat', Nat.mod_eq_of_lt below]
      exact ⟨below, rfl⟩

/-- After an exception only the bytes that were stored before it count. -/
theorem replyFits_thrown_iff {tables : Tables World} {ctx : Ctx World} {tx bytes : List Byte}
    {cmd : HwioCmd} {size : Nat} (inside : tx.length = bufferSize)
    (stored : ctx.tx = storedReply tx cmd size bytes) (nothing : foundIn ctx.calls = [])
    (exn : Exn) (errCode : HwioServerError) (msg : Text) :
    ReplyFits tables (if exn.isRuntimeError then ctx.sendErr errCode msg
      else (.error (.thrown exn), ctx)) ↔ bytes.length ≤ maxReplyBody := by
  have kept := storedReply_length_iff inside cmd size bytes
  rw [← stored] at kept
  cases exn.isRuntimeError with
  | true =>
      rw [if_pos rfl]
      constructor
      · intro fits
        have length : max ctx.tx.length (sizeofHeader + sizeofErrMsg) = bufferSize := by
          rw [← sendErr_length errCode msg ctx.tx]
          exact fits.inside
        rw [stored, storedReply, store_length] at length
        simp only [maxReplyBody, bufferSize, sizeofHeader] at *
        omega
      · intro small
        exact replyFits_sendErr (kept.mpr small) nothing errCode msg
  | false =>
      rw [if_neg (by decide)]
      exact ⟨fun fits => kept.mp fits.inside, fun small => replyFits_error (kept.mpr small)⟩

/-! ## The requests of each command -/

/-- The bytes that the device stores for a READ fit. -/
def ReadFits (tables : Tables World) (header : HwioPacketHeader) (ctx : Ctx World) : Prop :=
  header.bodyLen.toNat = sizeofRdReq →
    ∀ dev, clientGetDev ctx.devices (loadU16 ctx.rx 0) = some dev →
      ((tables.device dev).read (loadU32 ctx.rx 2) (loadU16 ctx.rx 6).toNat
        ctx.world).1.bytes.length ≤ maxReplyBody

/-- A condition on the device of a request is one on the device it resolves to. -/
theorem forall_resolved_iff {devices : List (Option DevPtr)} {devId : UInt16} {dev : DevPtr}
    (resolved : clientGetDev devices devId = some dev) (Condition : DevPtr → Prop) :
    (∀ other, clientGetDev devices devId = some other → Condition other) ↔ Condition dev := by
  constructor
  · intro all
    exact all dev resolved
  · intro one other same
    rw [resolved] at same
    cases same
    exact one

theorem handleRead_fits_iff {tables : Tables World} {header : HwioPacketHeader}
    {ctx : Ctx World} (inside : ctx.tx.length = bufferSize) (fresh : ctx.calls = []) :
    ReplyFits tables (handleRead tables header ctx) ↔ ReadFits tables header ctx := by
  have nothing : foundIn ctx.calls = [] := by rw [fresh, foundIn_nil]
  unfold handleRead ReadFits
  by_cases size : header.bodyLen.toNat = sizeofRdReq
  case neg =>
    rw [if_pos size]
    exact ⟨fun _ same => absurd same size, fun _ => replyFits_sendErr inside nothing _ _⟩
  rw [if_neg (not_not_intro size), forall_prop_of_true size]
  extract_lets devId addr count
  split
  case h_1 resolved =>
    refine ⟨fun _ dev same => ?_, fun _ => replyFits_sendErr inside nothing _ _⟩
    rw [resolved] at same
    cases same
  case h_2 dev resolved =>
    rw [forall_resolved_iff resolved fun dev =>
      ((tables.device dev).read addr count ctx.world).1.bytes.length ≤ maxReplyBody]
    have full := (tables.device dev).read_all addr count ctx.world
    generalize (tables.device dev).read addr count ctx.world = result at full
    have nothing' : foundIn (ctx.calls ++ [.read dev addr count]) = [] := by
      rw [foundIn_append, nothing]
      rfl
    cases thrown : result.1.thrown with
    | none =>
        simp only [thrown]
        have length : result.1.bytes.length = count := full thrown
        rw [length]
        refine replyFits_body_iff inside rfl nothing' (Nat.le_of_eq length) ?_
        show bodyBytes tables { ctx with
          tx := storedReply ctx.tx .readResp count result.1.bytes
          world := result.2
          calls := ctx.calls ++ [.read dev addr count] } = count
        unfold bodyBytes
        simp only [replyHeader_storedReply, HwioCmd.ofCode_code, fresh]
        simp [readCount]
    | some exn =>
        simp only [thrown]
        exact replyFits_thrown_iff inside rfl nothing' exn _ _

/-- The result of a plugin fits; after an exception, what it stored before. -/
def PluginFits (plugin : PluginInfo World) (dev : DevPtr) (argsOffset : Nat)
    (ctx : Ctx World) : Prop :=
  let out := (plugin.fn dev (load ctx.rx argsOffset plugin.argsSize) ctx.world).1
  if out.thrown = none then plugin.retSize ≤ maxReplyBody else out.ret.length ≤ maxReplyBody

theorem callPlugin_fits_iff {tables : Tables World} {ctx : Ctx World}
    (inside : ctx.tx.length = bufferSize) (fresh : ctx.calls = []) (plugin : PluginInfo World)
    (key : PluginKey) (dev : DevPtr) (argsOffset : Nat)
    (chosen : ∀ args, calledRetSize tables (.plugin key dev args) = plugin.retSize) :
    ReplyFits tables (callPlugin plugin key dev argsOffset ctx) ↔
      PluginFits plugin dev argsOffset ctx := by
  have bound := plugin.ret_le dev (load ctx.rx argsOffset plugin.argsSize) ctx.world
  unfold callPlugin PluginFits
  simp only
  generalize load ctx.rx argsOffset plugin.argsSize = args at bound
  generalize plugin.fn dev args ctx.world = result at bound
  have nothing : foundIn (ctx.calls ++ [.plugin key dev args]) = [] := by
    rw [fresh]
    rfl
  cases result.1.thrown with
  | none =>
      simp only [if_true]
      by_cases returns : plugin.retSize = 0
      · rw [if_neg (not_not_intro returns), returns]
        have empty : result.1.ret.length = 0 := by
          rw [returns] at bound
          exact Nat.le_zero.mp bound
        refine iff_of_true (replyFits_silent ?_ nothing) (Nat.zero_le _)
        exact (storedReply_length_iff inside .remoteCallRet 0 result.1.ret).mpr
          (by rw [empty]; exact Nat.zero_le _)
      · rw [if_pos returns]
        refine replyFits_body_iff inside rfl nothing bound ?_
        show bodyBytes tables { ctx with
          tx := storedReply ctx.tx .remoteCallRet plugin.retSize result.1.ret
          world := result.2
          calls := ctx.calls ++ [.plugin key dev args] } = plugin.retSize
        unfold bodyBytes
        simp only [replyHeader_storedReply, HwioCmd.ofCode_code, fresh]
        simp [chosen]
  | some exn =>
      simp only [reduceCtorEq, if_false]
      exact replyFits_thrown_iff inside rfl nothing exn _ _

def RemoteCallFits (tables : Tables World) (header : HwioPacketHeader) (ctx : Ctx World) :
    Prop :=
  sizeofRemoteCall - 1 ≤ header.bodyLen.toNat →
    ∀ dev, clientGetDev ctx.devices (loadU16 ctx.rx 0) = some dev →
      ∀ plugin, tables.findPlugin (cstr (ctx.rx.drop 2)) = some plugin →
        PluginFits plugin dev sizeofRemoteCall ctx

theorem handleRemoteCall_fits_iff {tables : Tables World} {header : HwioPacketHeader}
    {ctx : Ctx World} (inside : ctx.tx.length = bufferSize) (fresh : ctx.calls = []) :
    ReplyFits tables (handleRemoteCall tables header ctx) ↔ RemoteCallFits tables header ctx := by
  have nothing : foundIn ctx.calls = [] := by rw [fresh, foundIn_nil]
  unfold handleRemoteCall RemoteCallFits
  by_cases size : header.bodyLen.toNat < sizeofRemoteCall - 1
  · rw [if_pos size]
    exact ⟨fun _ enough => absurd size (Nat.not_lt.mpr enough),
      fun _ => replyFits_sendErr inside nothing _ _⟩
  rw [if_neg size, forall_prop_of_true (Nat.le_of_not_lt size)]
  split
  case h_1 resolved =>
    refine ⟨fun _ dev same => ?_, fun _ => replyFits_sendErr inside nothing _ _⟩
    rw [resolved] at same
    cases same
  case h_2 dev resolved =>
    rw [forall_resolved_iff resolved fun dev => ∀ plugin,
      tables.findPlugin (cstr (ctx.rx.drop 2)) = some plugin →
        PluginFits plugin dev sizeofRemoteCall ctx]
    simp only
    split
    case h_1 missing =>
      refine ⟨fun _ plugin same => ?_, fun _ => replyFits_sendErr inside nothing _ _⟩
      rw [missing] at same
      cases same
    case h_2 plugin found =>
      rw [callPlugin_fits_iff inside fresh plugin _ dev _ (by simp [calledRetSize, found])]
      constructor
      · intro fits other same
        rw [found] at same
        cases same
        exact fits
      · intro all
        exact all plugin found

def FastRemoteCallFits (tables : Tables World) (header : HwioPacketHeader) (ctx : Ctx World) :
    Prop :=
  sizeofRemoteCallFast - 1 ≤ header.bodyLen.toNat →
    ∀ dev, clientGetDev ctx.devices (loadU16 ctx.rx 0) = some dev →
      ∀ plugin, tables.pluginsFast[(loadU32 ctx.rx 2).toNat]? = some plugin →
        PluginFits plugin dev sizeofRemoteCallFast ctx

theorem handleFastRemoteCall_fits_iff {tables : Tables World} {header : HwioPacketHeader}
    {ctx : Ctx World} (inside : ctx.tx.length = bufferSize) (fresh : ctx.calls = []) :
    ReplyFits tables (handleFastRemoteCall tables header ctx) ↔
      FastRemoteCallFits tables header ctx := by
  have nothing : foundIn ctx.calls = [] := by rw [fresh, foundIn_nil]
  unfold handleFastRemoteCall FastRemoteCallFits
  by_cases size : header.bodyLen.toNat < sizeofRemoteCallFast - 1
  · rw [if_pos size]
    exact ⟨fun _ enough => absurd size (Nat.not_lt.mpr enough),
      fun _ => replyFits_sendErr inside nothing _ _⟩
  rw [if_neg size, forall_prop_of_true (Nat.le_of_not_lt size)]
  split
  case h_1 resolved =>
    refine ⟨fun _ dev same => ?_, fun _ => replyFits_sendErr inside nothing _ _⟩
    rw [resolved] at same
    cases same
  case h_2 dev resolved =>
    rw [forall_resolved_iff resolved fun dev => ∀ plugin,
      tables.pluginsFast[(loadU32 ctx.rx 2).toNat]? = some plugin →
        PluginFits plugin dev sizeofRemoteCallFast ctx]
    simp only
    split
    case h_1 missing =>
      refine ⟨fun _ plugin same => ?_, fun _ => replyFits_sendErr inside nothing _ _⟩
      rw [missing] at same
      cases same
    case h_2 plugin found =>
      rw [callPlugin_fits_iff inside fresh plugin _ dev _ (by simp [calledRetSize, found])]
      constructor
      · intro fits other same
        rw [found] at same
        cases same
        exact fits
      · intro all
        exact all plugin found

theorem handleGetRpcFnId_fits {tables : Tables World} {header : HwioPacketHeader}
    {ctx : Ctx World} (inside : ctx.tx.length = bufferSize) (fresh : ctx.calls = []) :
    ReplyFits tables (handleGetRpcFnId tables header ctx) := by
  have nothing : foundIn ctx.calls = [] := by rw [fresh, foundIn_nil]
  have length : ∀ (tx : List Byte) found fnId, tx.length = bufferSize →
      (setGetRemoteCallIdResp tx found fnId).length = bufferSize := by
    intro tx found fnId same
    rw [setGetRemoteCallIdResp, store_length, store_length, same, u32Bytes_length]
    rfl
  have kept : ∀ (tx : List Byte) found fnId,
      replyHeader (setGetRemoteCallIdResp tx found fnId) = replyHeader tx := by
    intro tx found fnId
    rw [setGetRemoteCallIdResp, replyHeader_store _ _ (Nat.le_add_right _ _),
      replyHeader_store _ _ (Nat.le_refl _)]
  have framed : (setBodyLen (setCommand ctx.tx .getRemoteCallIdResp)
      sizeofGetRemoteCallIdResp).length = bufferSize := by
    rw [setBodyLen_length, setCommand_length, inside]
    rfl
  unfold handleGetRpcFnId
  split
  · exact replyFits_sendErr inside nothing _ _
  · simp only
    split
    · apply replyFits_sendErr
      · exact length _ _ _ framed
      · exact nothing
    · -- whichever id is stored, the length and the header stay
      have answered : ∀ tx : List Byte, tx.length = bufferSize →
          replyHeader tx = ⟨HwioCmd.getRemoteCallIdResp.code, 5⟩ →
          ReplyFits tables (.ok ⟨false, sizeofHeader + (replyHeader tx).bodyLen.toNat⟩,
            { ctx with tx := tx }) := by
        intro tx size header
        refine ⟨size, ?_, ?_, ?_⟩
        · intro res same
          cases same
          rw [header]
          decide
        · intro res _ index below
          rw [nothing] at below
          cases below
        · intro res _ _
          unfold bodyBytes
          simp only [header, HwioCmd.ofCode_code, HwioCmd.getRemoteCallIdResp]
          decide
      have header : replyHeader (setBodyLen (setCommand ctx.tx .getRemoteCallIdResp)
          sizeofGetRemoteCallIdResp) = ⟨HwioCmd.getRemoteCallIdResp.code, 5⟩ := by
        rw [replyHeader_setBodyLen, replyHeader_setCommand]
        rfl
      split
      · exact answered _ (length _ _ _ framed) (by rw [kept, header])
      · exact answered _ (length _ _ _ (length _ _ _ framed)) (by rw [kept, kept, header])

theorem handlePing_fits {tables : Tables World} {header : HwioPacketHeader} {ctx : Ctx World}
    (inside : ctx.tx.length = bufferSize) (fresh : ctx.calls = []) :
    ReplyFits tables (handlePing header ctx) := by
  have nothing : foundIn ctx.calls = [] := by rw [fresh, foundIn_nil]
  unfold handlePing
  split
  · exact replyFits_sendErr inside nothing _ _
  · have framed : replyHeader (setBodyLen (setCommand ctx.tx .pingReply) 0) =
        ⟨HwioCmd.pingReply.code, 0⟩ := by
      rw [replyHeader_setBodyLen, replyHeader_setCommand]
      rfl
    refine ⟨?_, ?_, ?_, ?_⟩
    · show (setBodyLen (setCommand ctx.tx .pingReply) 0).length = bufferSize
      rw [setBodyLen_length, setCommand_length, inside]
      rfl
    · intro res same
      cases same
      decide
    · intro res _ index below
      rw [nothing] at below
      cases below
    · intro res _ _
      unfold bodyBytes
      simp only [framed, HwioCmd.ofCode_code]
      decide

/-- The lookup of a QUERY finds few enough devices, or one of the devices whose
id would still fit can not be registered, so that no reply is built. -/
def QueryFits (tables : Tables World) (header : HwioPacketHeader) (ctx : Ctx World) : Prop :=
  QueryFramed header →
    let specs := extractSpecFromClientQuery ctx.rx (header.bodyLen.toNat / sizeofDevQueryItem)
    let looked := findOnBuses specs tables.buses 0 { ctx with tx := setCommand ctx.tx .queryResp }
    ∀ found, looked.1 = .ok found → found.length ≤ maxReplyIds ∨
      (registerDevices tables (found.take (maxReplyIds + 1)) 0
        { looked.2 with tx := setBodyLen looked.2.tx 0 }).1 ≠ .ok ()

/-- The reply of a lookup that found some devices, after its header was set. -/
theorem registered_fits_iff {tables : Tables World} {ctx : Ctx World}
    (inside : ctx.tx.length = bufferSize) (found : List DevPtr)
    (looked : foundIn ctx.calls = found)
    (header : replyHeader ctx.tx = ⟨HwioCmd.queryResp.code, 0⟩) :
    ReplyFits tables
      (match registerDevices tables found 0 ctx with
        | (.error stop, ctx) => (.error stop, ctx)
        | (.ok (), ctx) =>
          (.ok ⟨false, sizeofHeader + (replyHeader ctx.tx).bodyLen.toNat⟩, ctx)) ↔
      found.length ≤ maxReplyIds ∨
        (registerDevices tables (found.take (maxReplyIds + 1)) 0 ctx).1 ≠ .ok () := by
  have room : sizeofHeader ≤ ctx.tx.length := by
    rw [inside]
    decide
  have bounds : maxReplyIds = 1022 := rfl
  by_cases few : found.length ≤ maxReplyIds
  · -- every id fits, also when a registration stops before the last one
    refine iff_of_true ?_ (Or.inl few)
    obtain ⟨count, world, devices, tx, calls, left, attach, length, command, bodyLen, counted⟩ :=
      registerDevices_spec tables found 0 ctx room
    rcases registering : registerDevices tables found 0 ctx with ⟨result, after⟩
    rw [registering] at left counted
    simp only at left
    subst left
    have size : tx.length = bufferSize := by
      have written : count ≤ found.length := by
        split at counted <;> omega
      split at length
      · rw [length, inside]
      · rw [length, inside]
        simp only [bufferSize, sizeofHeader, sizeofDevId]
        omega
    cases result with
    | error stop => exact replyFits_error size
    | ok done =>
        rw [if_pos rfl] at counted
        rw [header] at command bodyLen
        have body : (replyHeader tx).bodyLen.toNat = sizeofDevId * found.length := by
          rw [bodyLen, counted]
          simp only [sizeofDevId]
          show (0 + 2 * found.length) % 65536 = 2 * found.length
          omega
        have ids : foundIn (ctx.calls ++ calls) = found := by
          rw [foundIn_append, looked, attach.foundIn, List.append_nil]
        refine ⟨size, ?_, ?_, ?_⟩
        · intro res same
          cases same
          rw [body]
          simp only [bufferSize, sizeofHeader, sizeofDevId]
          omega
        · intro res same index below
          cases same
          rw [ids] at below
          rw [body]
          simp only [sizeofHeader, sizeofDevId]
          omega
        · intro res _ _
          unfold bodyBytes
          simp only [command, HwioCmd.ofCode_code, ids]
          refine ⟨?_, body⟩
          simp only [sizeofDevId]
          omega
  · -- the first id that does not fit is written unless a registration stops before it
    have split : found = found.take (maxReplyIds + 1) ++ found.drop (maxReplyIds + 1) :=
      (List.take_append_drop _ _).symm
    have firstLength : (found.take (maxReplyIds + 1)).length = maxReplyIds + 1 := by
      rw [List.length_take]
      omega
    obtain ⟨count, world, devices, tx, calls, left, attach, length, command, bodyLen, counted⟩ :=
      registerDevices_spec tables (found.take (maxReplyIds + 1)) 0 ctx room
    rw [or_iff_right few]
    conv_lhs => rw [split, registerDevices_append]
    rcases registering : registerDevices tables (found.take (maxReplyIds + 1)) 0 ctx with
      ⟨result, after⟩
    rw [registering] at left counted
    simp only at left
    subst left
    cases result with
    | error stop =>
        refine iff_of_true (replyFits_error ?_) (by simp)
        rw [if_neg (by simp), firstLength] at counted
        show tx.length = bufferSize
        split at length
        · rw [length, inside]
        · rw [length, inside]
          simp only [bufferSize, sizeofHeader, sizeofDevId]
          omega
    | ok done =>
        refine iff_of_false ?_ (by simp)
        rw [if_pos rfl, firstLength] at counted
        rw [if_neg (by omega)] at length
        have beyond : bufferSize < tx.length := by
          rw [length, inside, counted]
          decide
        obtain ⟨more, world', devices', tx', calls', left', _, length', _, _, _⟩ :=
          registerDevices_spec tables (found.drop (maxReplyIds + 1))
            (0 + (found.take (maxReplyIds + 1)).length)
            { ctx with
              devices := devices, world := world, tx := tx, calls := ctx.calls ++ calls }
            (by
              show sizeofHeader ≤ tx.length
              simp only [bufferSize, sizeofHeader] at *
              omega)
        intro fits
        have inside' := fits.inside
        simp only at inside'
        rcases last : registerDevices tables (found.drop (maxReplyIds + 1))
          (0 + (found.take (maxReplyIds + 1)).length)
          { ctx with
            devices := devices, world := world, tx := tx, calls := ctx.calls ++ calls }
          with ⟨result, final⟩
        rw [last] at left' inside'
        have final' : final.tx = tx' := congrArg Ctx.tx left'
        have grown : tx.length ≤ tx'.length := by
          split at length'
          · rw [length']
          · rw [length']
            exact Nat.le_max_left _ _
        have same : final.tx.length = bufferSize := by
          cases result with
          | error stop => exact inside'
          | ok done => exact inside'
        rw [final'] at same
        omega

theorem handleQuery_fits_iff {tables : Tables World} {header : HwioPacketHeader}
    {ctx : Ctx World} (inside : ctx.tx.length = bufferSize) (fresh : ctx.calls = []) :
    ReplyFits tables (handleQuery tables header ctx) ↔ QueryFits tables header ctx := by
  have nothing : foundIn ctx.calls = [] := by rw [fresh, foundIn_nil]
  by_cases framed : QueryFramed header
  case neg =>
    obtain ⟨code, msg, _, refusal⟩ := @handleQuery_unframed World header framed
    rw [refusal]
    exact iff_of_true (replyFits_sendErr inside nothing _ _) fun wanted => absurd wanted framed
  rw [handleQuery_framed tables ctx framed]
  unfold QueryFits
  rw [forall_prop_of_true framed]
  unfold deviceLookupResp
  simp only
  obtain ⟨world, calls, left, _, results⟩ := findOnBuses_spec
    (extractSpecFromClientQuery ctx.rx (header.bodyLen.toNat / sizeofDevQueryItem)) tables.buses
    0 { ctx with tx := setCommand ctx.tx .queryResp }
  rcases looking : findOnBuses
    (extractSpecFromClientQuery ctx.rx (header.bodyLen.toNat / sizeofDevQueryItem)) tables.buses
    0 { ctx with tx := setCommand ctx.tx .queryResp } with ⟨result, after⟩
  rw [looking] at left results
  simp only at left
  subst left
  have command : (setCommand ctx.tx .queryResp).length = bufferSize := by
    rw [setCommand_length, inside]
    rfl
  cases result with
  | error stop =>
      refine iff_of_true (replyFits_error command) ?_
      intro found same
      cases same
  | ok found =>
      simp only [Except.ok.injEq, forall_eq']
      refine registered_fits_iff ?_ found ?_ ?_
      · show (setBodyLen (setCommand ctx.tx .queryResp) 0).length = bufferSize
        rw [setBodyLen_length, command]
        rfl
      · show foundIn (ctx.calls ++ calls) = found
        rw [foundIn_append, nothing, results found rfl, List.nil_append]
      · rw [replyHeader_setBodyLen, replyHeader_setCommand]
        rfl

/-! ## All requests -/

/-- The requests whose reply fits `tx_buffer`. -/
def RequestFits (tables : Tables World) (header : HwioPacketHeader) (ctx : Ctx World) : Prop :=
  match HwioCmd.ofCode header.command with
  | some .remoteCallFast => FastRemoteCallFits tables header ctx
  | some .read => ReadFits tables header ctx
  | some .remoteCall => RemoteCallFits tables header ctx
  | some .query => QueryFits tables header ctx
  | _ => True

theorem handleWrite_fits {tables : Tables World} {header : HwioPacketHeader} {ctx : Ctx World}
    (inside : ctx.tx.length = bufferSize) (fresh : ctx.calls = []) :
    ReplyFits tables (handleWrite tables header ctx) := by
  have nothing : foundIn ctx.calls = [] := by rw [fresh, foundIn_nil]
  unfold handleWrite
  split
  · exact replyFits_sendErr inside nothing _ _
  simp only
  split
  · exact replyFits_sendErr inside nothing _ _
  split
  · exact replyFits_sendErr inside nothing _ _
  split
  · refine replyFits_silent inside ?_
    rw [foundIn_append, nothing]
    rfl
  · exact replyFits_error inside

theorem handleMsg_fits_iff {tables : Tables World} {header : HwioPacketHeader}
    {ctx : Ctx World} (inside : ctx.tx.length = bufferSize) (fresh : ctx.calls = []) :
    ReplyFits tables (handleMsg tables header ctx) ↔ RequestFits tables header ctx := by
  have nothing : foundIn ctx.calls = [] := by rw [fresh, foundIn_nil]
  have unknown : ReplyFits tables (ctx.sendErr .unknownCommand []) ↔ True :=
    iff_true_intro (replyFits_sendErr inside nothing _ _)
  unfold handleMsg RequestFits
  cases HwioCmd.ofCode header.command with
  | none => exact unknown
  | some cmd =>
      cases cmd with
      | remoteCallFast => exact handleFastRemoteCall_fits_iff inside fresh
      | read => exact handleRead_fits_iff inside fresh
      | write => exact iff_true_intro (handleWrite_fits inside fresh)
      | remoteCall => exact handleRemoteCall_fits_iff inside fresh
      | pingRequest => exact iff_true_intro (handlePing_fits inside fresh)
      | query => exact handleQuery_fits_iff inside fresh
      | getRemoteCallId => exact iff_true_intro (handleGetRpcFnId_fits inside fresh)
      | bye | msg => exact iff_true_intro (replyFits_silent inside nothing)
      | readResp | pingReply | queryResp | remoteCallRet => exact unknown

/-! ## Runs of requests that fit -/

/-- After a history of requests that fit, `tx_buffer` has its size. -/
theorem after_txBuffer_length {tables : Tables World} {start : Service World}
    (inside : start.txBuffer.length = bufferSize) (history : List Event)
    (fits : ∀ client header ctx, Requested tables start history client header ctx →
      RequestFits tables header ctx) :
    (start.after tables history).txBuffer.length = bufferSize := by
  induction history using List.reverseRecOn with
  | nil => exact inside
  | append_singleton earlier event inductionHypothesis =>
      have kept := inductionHypothesis fun client header ctx requested =>
        fits client header ctx (requested.append [event])
      rw [Service.after_append]
      cases event with
      | dispatched client offset header rx =>
          have request := fits client header ((start.after tables earlier).request client rx)
            ⟨earlier, offset, rx, [], rfl, rfl⟩
          exact ((handleMsg_fits_iff kept rfl).mpr request).inside
      | _ => exact kept

/-- In a run whose requests so far all fit, every reply did, and the reply to
any next request fits just when that request does. -/
theorem replies_fit_iff {tables : Tables World} {master : Fd} {tx : List Byte} {world : World}
    {server : HwioServer World} (inside : tx.length = bufferSize)
    (reached : HwioServer.Reached (HwioServer.prepared tables master tx world) server)
    (fits : ∀ client header ctx,
      Requested tables (HwioServer.prepared tables master tx world).service server.trace
        client header ctx → RequestFits tables header ctx) :
    (∀ client header ctx,
      Requested tables (HwioServer.prepared tables master tx world).service server.trace
        client header ctx → ReplyFits tables (handleMsg tables header ctx)) ∧
      ∀ client header rx,
        ReplyFits tables (handleMsg tables header (server.service.request client rx)) ↔
          RequestFits tables header (server.service.request client rx) := by
  constructor
  · intro client header ctx requested
    have request := fits client header ctx requested
    obtain ⟨front, offset, rx, back, split, rfl⟩ := requested
    have kept := after_txBuffer_length inside front fun client header ctx earlier =>
      fits client header ctx (by rw [split]; exact earlier.append _)
    exact (handleMsg_fits_iff kept rfl).mpr request
  · intro client header rx
    have kept : server.service.txBuffer.length = bufferSize := by
      rw [reached.service_prepared]
      exact after_txBuffer_length inside server.trace fits
    exact handleMsg_fits_iff kept rfl

theorem query_reply_fits :
    ReplyFits HwioServer.oneDevice (handleMsg HwioServer.oneDevice ⟨HwioCmd.query.code, 396⟩
      ((HwioServer.prepared HwioServer.oneDevice 3 (List.replicate bufferSize 0) ()).service.request
        0 (List.replicate 396 0))) :=
  ((replies_fit_iff (by decide +kernel) .start fun _ _ _ requested => by
    obtain ⟨front, _, _, _, split, _⟩ := requested
    cases front with
    | nil => cases split
    | cons event rest => cases rest <;> cases split).2 0 ⟨HwioCmd.query.code, 396⟩ _).mpr (by
      intro _ specs looked found same
      cases same
      exact Or.inl (by decide))

/-- The last byte of a READ of 2046 bytes is stored behind the end of `tx_buffer`. -/
theorem long_read_not_fits :
    let start := HwioServer.prepared HwioServer.oneDevice 3 (List.replicate bufferSize 0) ()
    ∃ server header ctx, HwioServer.Reached start server ∧
      Requested HwioServer.oneDevice start.service server.trace 0 header ctx ∧
      ¬ ReplyFits HwioServer.oneDevice (handleMsg HwioServer.oneDevice header ctx) := by
  intro start
  let server := HwioServer.loneRun HwioServer.oneDevice (List.replicate bufferSize 0) ()
    (HwioServer.queryFrame ++ [1, 8, 0, 0, 0, 0, 0, 0, 0, 0xFE, 7])
  have dispatched : server.trace[11]? =
      some (.dispatched 0 399 ⟨1, 8⟩ [0, 0, 0, 0, 0, 0, 0xFE, 7]) := by decide +kernel
  have beyond : (handleMsg HwioServer.oneDevice ⟨1, 8⟩ ((start.service.after HwioServer.oneDevice
      (server.trace.take 11)).request 0 [0, 0, 0, 0, 0, 0, 0xFE, 7])).2.tx.length ≠
        bufferSize := by decide +kernel
  exact ⟨server, _, _, HwioServer.loneRun_reached .., Requested.of_getElem? dispatched,
    fun fits => beyond fits.inside⟩

end Hwio
