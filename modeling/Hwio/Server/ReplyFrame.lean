import Hwio.Server.Registration
import Hwio.Server.Requests

/-!
Contract: when a reply is exactly one frame.

Owns the bytes sent for a request, and the requests for which these bytes are
one frame as `rx_pckt` decodes it: a header and the body that it announces.

Does not own the size of `tx_buffer` or the content of a body.
-/

namespace Hwio

open Library

variable {World : Type}

/-! ## The bytes of a reply -/

/-- What `parse_msgs` sends for the outcome of a request. -/
def replyBytes : Handled World → List Byte
  | (.ok res, ctx) => load ctx.tx 0 res.txSize
  | (.error _, _) => []

theorem replyBytes_of_ok {answer : Handled World} {res : PProcRes} (ok : answer.1 = .ok res) :
    replyBytes answer = load answer.2.tx 0 res.txSize := by
  rcases answer with ⟨result, left⟩
  simp only at ok
  subst ok
  rfl

theorem replyBytes_of_error {answer : Handled World} {stop : Stop} (failed : answer.1 = .error stop) :
    replyBytes answer = [] := by
  rcases answer with ⟨result, left⟩
  simp only at failed
  subst failed
  rfl

/-- Nothing is sent, or one header with exactly the body it announces. -/
def OneFrame (handled : Handled World) : Prop :=
  replyBytes handled = [] ∨ ∃ frame : Frame, replyBytes handled = frame.bytes

/-- Bytes from the front of `tx_buffer` are one frame just when their number is
that of the header and the announced body. -/
theorem load_eq_frame_iff (tx : List Byte) (count : Nat) :
    (∃ frame : Frame, load tx 0 count = frame.bytes) ↔
      count = sizeofHeader + (replyHeader tx).bodyLen.toNat := by
  constructor
  · rintro ⟨frame, same⟩
    have total : count = sizeofHeader + frame.body.length := by
      rw [← frame.bytes_length, ← same, load_length]
    have front : load tx 0 sizeofHeader = frame.header.bytes := by
      have split := load_add tx 0 sizeofHeader frame.body.length
      rw [← total, same, Frame.bytes] at split
      exact (List.append_inj_left split (by simp)).symm
    have header : replyHeader tx = frame.header := HwioPacketHeader.at_of_load front
    rw [total, header, frame.header_bodyLen_toNat]
  · intro total
    refine ⟨⟨(replyHeader tx).command,
      load tx sizeofHeader (replyHeader tx).bodyLen.toNat, ?_⟩, ?_⟩
    · rw [load_length]
      exact (replyHeader tx).bodyLen.toNat_lt
    · have header : Frame.header ⟨(replyHeader tx).command,
          load tx sizeofHeader (replyHeader tx).bodyLen.toNat, by
            rw [load_length]
            exact (replyHeader tx).bodyLen.toNat_lt⟩ = replyHeader tx := by
        simp only [Frame.header, load_length, UInt16.ofNat_toNat]
      rw [Frame.bytes, header, replyHeader, HwioPacketHeader.bytes_at, total, load_add,
        Nat.zero_add]
      rfl

theorem oneFrame_ok_iff (res : PProcRes) (ctx : Ctx World) :
    OneFrame (.ok res, ctx) ↔
      res.txSize = 0 ∨ res.txSize = sizeofHeader + (replyHeader ctx.tx).bodyLen.toNat := by
  unfold OneFrame replyBytes
  rw [load_eq_frame_iff]
  constructor
  · rintro (empty | total)
    · left
      have none := congrArg List.length empty
      rwa [load_length, List.length_nil] at none
    · exact Or.inr total
  · rintro (empty | total)
    · left
      show load ctx.tx 0 res.txSize = []
      rw [empty, load_zero]
    · exact Or.inr total

theorem oneFrame_error (stop : Stop) (ctx : Ctx World) : OneFrame (.error stop, ctx) :=
  Or.inl rfl

/-! ## Error frames -/

/-- The messages whose error frame is as long as the number of bytes sent for
it: one that leaves exactly the last three bytes of the field unused, or one
that fills the field and is followed by nonzero bytes up to a full turn of the
16-bit length. -/
def ErrMsgFrames (tx : List Byte) (msg : Text) : Prop :=
  (cstr msg).length = maxErrMsgLen - sizeofHeader ∨
    maxErrMsgLen ≤ (cstr msg).length ∧
      (cstr (tx.drop (sizeofHeader + sizeofErrMsg))).length % 65536 = 65533

theorem oneFrame_sendErr_iff (ctx : Ctx World) (errCode : HwioServerError) (msg : Text) :
    OneFrame (ctx.sendErr errCode msg) ↔ ErrMsgFrames ctx.tx msg := by
  have sent : ctx.sendErr errCode msg =
      (.ok ⟨true, sizeofErrMsg⟩, { ctx with tx := (sendErr errCode msg ctx.tx).2 }) := rfl
  have counted : (UInt16.ofNat (4 + errMsgLen ctx.tx msg)).toNat =
      (4 + errMsgLen ctx.tx msg) % 65536 := UInt16.toNat_ofNat'
  rw [sent, oneFrame_ok_iff, replyHeader_sendErr, counted]
  unfold ErrMsgFrames
  by_cases short : (cstr msg).length < maxErrMsgLen
  · rw [errMsgLen_of_short ctx.tx short]
    simp only [sizeofErrMsg, sizeofHeader, maxErrMsgLen] at *
    omega
  · rw [errMsgLen_of_long ctx.tx (Nat.le_of_not_lt short)]
    simp only [sizeofErrMsg, sizeofHeader, maxErrMsgLen] at *
    omega

/-- The messages of the source are all too short. -/
theorem not_oneFrame_sendErr {msg : Text} (short : msg.length < maxErrMsgLen - sizeofHeader)
    (ctx : Ctx World) (errCode : HwioServerError) : ¬ OneFrame (ctx.sendErr errCode msg) := by
  rw [oneFrame_sendErr_iff]
  have bound := cstr_length_le msg
  unfold ErrMsgFrames
  simp only [maxErrMsgLen, sizeofHeader] at *
  omega

/-! ## The requests of each command -/

/-- READ is answered when it has its size, names a device of the client, and
the device does not report a run-time error. -/
def ReadFramed (tables : Tables World) (header : HwioPacketHeader) (ctx : Ctx World) : Prop :=
  header.bodyLen.toNat = sizeofRdReq ∧
    ∃ dev, clientGetDev ctx.devices (loadU16 ctx.rx 0) = some dev ∧
      ∀ exn, ((tables.device dev).read (loadU32 ctx.rx 2) (loadU16 ctx.rx 6).toNat
        ctx.world).1.thrown = some exn → exn.isRuntimeError = false

theorem handleRead_oneFrame_iff (tables : Tables World) (header : HwioPacketHeader)
    (ctx : Ctx World) :
    OneFrame (handleRead tables header ctx) ↔ ReadFramed tables header ctx := by
  unfold handleRead ReadFramed
  by_cases size : header.bodyLen.toNat = sizeofRdReq
  case neg =>
    rw [if_pos size]
    exact ⟨fun framed => absurd framed (not_oneFrame_sendErr (by decide) ctx _),
      fun wanted => absurd wanted.1 size⟩
  rw [if_neg (not_not_intro size)]
  simp only
  cases resolved : clientGetDev ctx.devices (loadU16 ctx.rx 0) with
  | none =>
      exact ⟨fun framed => absurd framed (not_oneFrame_sendErr (by decide) ctx _),
        fun ⟨_, _, same, _⟩ => by cases same⟩
  | some dev =>
      simp only [size, Option.some.injEq, exists_eq_left', true_and]
      cases ((tables.device dev).read (loadU32 ctx.rx 2) (loadU16 ctx.rx 6).toNat
        ctx.world).1.thrown with
      | none =>
          refine ⟨fun _ exn same => (by cases same), fun _ => ?_⟩
          rw [oneFrame_ok_iff, replyHeader_store _ _ (Nat.le_refl _), replyHeader_setBodyLen,
            UInt16.ofNat_toNat]
          exact Or.inr rfl
      | some exn =>
          simp only [Option.some.injEq, forall_eq']
          cases exn.isRuntimeError with
          | true =>
              rw [if_pos rfl]
              exact ⟨fun framed => absurd framed (not_oneFrame_sendErr (by decide) _ _),
                fun quiet => by cases quiet⟩
          | false =>
              rw [if_neg (by decide)]
              exact ⟨fun _ => rfl, fun _ => oneFrame_error _ _⟩

/-- WRITE is accepted when it has at least its size and names a device of the
client below the limit. -/
def WriteFramed (header : HwioPacketHeader) (ctx : Ctx World) : Prop :=
  sizeofWrReq ≤ header.bodyLen.toNat ∧ (loadU16 ctx.rx 0).toNat < maxDevices ∧
    ∃ dev, clientGetDev ctx.devices (loadU16 ctx.rx 0) = some dev

theorem handleWrite_oneFrame_iff (tables : Tables World) (header : HwioPacketHeader)
    (ctx : Ctx World) :
    OneFrame (handleWrite tables header ctx) ↔ WriteFramed header ctx := by
  unfold handleWrite WriteFramed
  by_cases size : header.bodyLen.toNat < sizeofWrReq
  · rw [if_pos size]
    exact ⟨fun framed => absurd framed (not_oneFrame_sendErr (by decide) ctx _),
      fun wanted => absurd size (Nat.not_lt.mpr wanted.1)⟩
  rw [if_neg size]
  simp only
  by_cases limit : maxDevices ≤ (loadU16 ctx.rx 0).toNat
  · rw [if_pos limit]
    exact ⟨fun framed => absurd framed (not_oneFrame_sendErr (by decide) ctx _),
      fun wanted => absurd limit (Nat.not_le.mpr wanted.2.1)⟩
  rw [if_neg limit]
  cases resolved : clientGetDev ctx.devices (loadU16 ctx.rx 0) with
  | none =>
      exact ⟨fun framed => absurd framed (not_oneFrame_sendErr (by decide) ctx _),
        fun ⟨_, _, _, same⟩ => by cases same⟩
  | some dev =>
      refine ⟨fun _ => ⟨Nat.le_of_not_lt size, Nat.lt_of_not_le limit, dev, rfl⟩, fun _ => ?_⟩
      simp only
      split
      · rw [oneFrame_ok_iff]
        exact Or.inl rfl
      · exact oneFrame_error _ _

/-- A plugin call is answered when its result fits a 16-bit length, or when it
throws a run-time error with a message of the right length. -/
def PluginFramed (plugin : PluginInfo World) (dev : DevPtr) (argsOffset : Nat)
    (ctx : Ctx World) : Prop :=
  let out := (plugin.fn dev (load ctx.rx argsOffset plugin.argsSize) ctx.world).1
  match out.thrown with
  | none => plugin.retSize < 65536
  | some exn => exn.isRuntimeError →
      ErrMsgFrames (store ctx.tx sizeofHeader out.ret)
        (text "Call of plugin function raised and exception " ++ exn.what)

/-- Only the memory behind the message field counts. -/
theorem errMsgFrames_congr {left right : List Byte}
    (same : left.drop (sizeofHeader + sizeofErrMsg) = right.drop (sizeofHeader + sizeofErrMsg))
    (msg : Text) : ErrMsgFrames left msg ↔ ErrMsgFrames right msg := by
  unfold ErrMsgFrames
  rw [same]

theorem callPlugin_oneFrame_iff (plugin : PluginInfo World) (key : PluginKey) (dev : DevPtr)
    (argsOffset : Nat) (ctx : Ctx World) :
    OneFrame (callPlugin plugin key dev argsOffset ctx) ↔
      PluginFramed plugin dev argsOffset ctx := by
  unfold callPlugin PluginFramed
  simp only
  generalize (plugin.fn dev (load ctx.rx argsOffset plugin.argsSize) ctx.world).1 = out
  cases out.thrown with
  | none =>
      simp only
      by_cases returns : plugin.retSize = 0
      · rw [if_neg (not_not_intro returns), oneFrame_ok_iff, returns]
        exact ⟨fun _ => by decide, fun _ => Or.inl rfl⟩
      · rw [if_pos returns, oneFrame_ok_iff, replyHeader_store _ _ (Nat.le_refl _),
          replyHeader_setBodyLen, UInt16.toNat_ofNat']
        simp only [sizeofHeader]
        omega
  | some exn =>
      simp only
      cases exn.isRuntimeError with
      | true =>
          rw [if_pos rfl, oneFrame_sendErr_iff]
          have same : (store (setBodyLen (setCommand ctx.tx .remoteCallRet) plugin.retSize)
              sizeofHeader out.ret).drop (sizeofHeader + sizeofErrMsg) =
                (store ctx.tx sizeofHeader out.ret).drop (sizeofHeader + sizeofErrMsg) := by
            rw [← List.drop_drop, ← List.drop_drop, store_drop_same, store_drop_same,
              setBodyLen, setCommand,
              store_drop_after _ (by simp only [leBytes_length, sizeofHeader]; omega),
              store_drop_after _ (by simp only [List.length_singleton, sizeofHeader]; omega)]
          rw [errMsgFrames_congr same]
          exact ⟨fun framed _ => framed, fun framed => framed rfl⟩
      | false =>
          rw [if_neg (by decide)]
          exact ⟨fun _ impossible => (by cases impossible), fun _ => oneFrame_error _ _⟩

/-- The message for a name that no plugin has. -/
def notRegistered (fnName : Text) : Text :=
  text "REMOTE CALL: RPC function " ++ fnName ++ text " not registered on server"

def RemoteCallFramed (tables : Tables World) (header : HwioPacketHeader) (ctx : Ctx World) :
    Prop :=
  sizeofRemoteCall - 1 ≤ header.bodyLen.toNat ∧
    ∃ dev, clientGetDev ctx.devices (loadU16 ctx.rx 0) = some dev ∧
      match tables.findPlugin (cstr (ctx.rx.drop 2)) with
      | none => ErrMsgFrames ctx.tx (notRegistered (cstr (ctx.rx.drop 2)))
      | some plugin => PluginFramed plugin dev sizeofRemoteCall ctx

theorem handleRemoteCall_oneFrame_iff (tables : Tables World) (header : HwioPacketHeader)
    (ctx : Ctx World) :
    OneFrame (handleRemoteCall tables header ctx) ↔ RemoteCallFramed tables header ctx := by
  unfold handleRemoteCall RemoteCallFramed
  by_cases size : header.bodyLen.toNat < sizeofRemoteCall - 1
  · rw [if_pos size]
    exact ⟨fun framed => absurd framed (not_oneFrame_sendErr (by decide) ctx _),
      fun wanted => absurd size (Nat.not_lt.mpr wanted.1)⟩
  rw [if_neg size]
  have enough := Nat.le_of_not_lt size
  simp only
  cases resolved : clientGetDev ctx.devices (loadU16 ctx.rx 0) with
  | none =>
      refine ⟨fun framed => absurd framed (not_oneFrame_sendErr (by decide) ctx _),
        fun framed => ?_⟩
      obtain ⟨_, _, same, _⟩ := framed
      cases same
  | some dev =>
      simp only [Option.some.injEq, exists_eq_left', enough, true_and]
      cases tables.findPlugin (cstr (ctx.rx.drop 2)) with
      | none => exact oneFrame_sendErr_iff ctx _ _
      | some plugin => exact callPlugin_oneFrame_iff plugin _ dev _ ctx

/-- The text for an id that no plugin has is short: an id has at most ten digits. -/
theorem fastNotRegistered_short (fnId : UInt32) :
    (text "REMOTE CALL: RPC function with id " ++ decimal fnId.toNat ++
      text " is not registered on server").length < maxErrMsgLen - sizeofHeader := by
  have digits : (decimal fnId.toNat).length ≤ 10 :=
    decimal_length_le (by decide) (Nat.lt_trans fnId.toNat_lt (by decide))
  have front : (text "REMOTE CALL: RPC function with id ").length = 34 := by decide
  have back : (text " is not registered on server").length = 28 := by decide
  rw [List.length_append, List.length_append, front, back]
  simp only [maxErrMsgLen, sizeofHeader]
  omega

def FastRemoteCallFramed (tables : Tables World) (header : HwioPacketHeader)
    (ctx : Ctx World) : Prop :=
  sizeofRemoteCallFast - 1 ≤ header.bodyLen.toNat ∧
    ∃ dev, clientGetDev ctx.devices (loadU16 ctx.rx 0) = some dev ∧
      ∃ plugin, tables.pluginsFast[(loadU32 ctx.rx 2).toNat]? = some plugin ∧
        PluginFramed plugin dev sizeofRemoteCallFast ctx

theorem handleFastRemoteCall_oneFrame_iff (tables : Tables World) (header : HwioPacketHeader)
    (ctx : Ctx World) :
    OneFrame (handleFastRemoteCall tables header ctx) ↔
      FastRemoteCallFramed tables header ctx := by
  unfold handleFastRemoteCall FastRemoteCallFramed
  by_cases size : header.bodyLen.toNat < sizeofRemoteCallFast - 1
  · rw [if_pos size]
    exact ⟨fun framed => absurd framed (not_oneFrame_sendErr (by decide) ctx _),
      fun wanted => absurd size (Nat.not_lt.mpr wanted.1)⟩
  rw [if_neg size]
  have enough := Nat.le_of_not_lt size
  simp only
  cases resolved : clientGetDev ctx.devices (loadU16 ctx.rx 0) with
  | none =>
      exact ⟨fun framed => absurd framed (not_oneFrame_sendErr (by decide) ctx _),
        fun ⟨_, _, same, _⟩ => by cases same⟩
  | some dev =>
      simp only [Option.some.injEq, exists_eq_left', enough, true_and]
      cases tables.pluginsFast[(loadU32 ctx.rx 2).toNat]? with
      | none =>
          have short := fastNotRegistered_short (loadU32 ctx.rx 2)
          exact ⟨fun framed => absurd framed (not_oneFrame_sendErr short ctx _),
            fun ⟨_, same, _⟩ => by cases same⟩
      | some plugin =>
          simp only [Option.some.injEq, exists_eq_left']
          exact callPlugin_oneFrame_iff plugin _ dev _ ctx

def GetRpcFnIdFramed (header : HwioPacketHeader) (ctx : Ctx World) : Prop :=
  sizeofGetRemoteCallId ≤ header.bodyLen.toNat ∧
    ∃ dev, clientGetDev ctx.devices (loadU16 ctx.rx 0) = some dev

theorem handleGetRpcFnId_oneFrame_iff (tables : Tables World) (header : HwioPacketHeader)
    (ctx : Ctx World) :
    OneFrame (handleGetRpcFnId tables header ctx) ↔ GetRpcFnIdFramed header ctx := by
  unfold handleGetRpcFnId GetRpcFnIdFramed
  by_cases size : header.bodyLen.toNat < sizeofGetRemoteCallId
  · rw [if_pos size]
    exact ⟨fun framed => absurd framed (not_oneFrame_sendErr (by decide) ctx _),
      fun wanted => absurd size (Nat.not_lt.mpr wanted.1)⟩
  rw [if_neg size]
  simp only
  cases resolved : clientGetDev ctx.devices (loadU16 ctx.rx 0) with
  | none =>
      exact ⟨fun framed => absurd framed (not_oneFrame_sendErr (by decide) _ _),
        fun ⟨_, _, same⟩ => by cases same⟩
  | some dev =>
      refine ⟨fun _ => ⟨Nat.le_of_not_lt size, dev, rfl⟩, fun _ => ?_⟩
      rw [oneFrame_ok_iff]
      exact Or.inr rfl

theorem handlePing_oneFrame_iff (header : HwioPacketHeader) (ctx : Ctx World) :
    OneFrame (handlePing header ctx) ↔ header.bodyLen = 0 := by
  unfold handlePing
  by_cases empty : header.bodyLen = 0
  · rw [if_neg (not_not_intro empty), oneFrame_ok_iff, replyHeader_setBodyLen]
    exact ⟨fun _ => empty, fun _ => Or.inr rfl⟩
  · rw [if_pos empty]
    exact ⟨fun framed => absurd framed (not_oneFrame_sendErr (by decide) ctx _),
      fun wanted => absurd wanted empty⟩

/-- QUERY is answered when it carries one to five whole items. -/
def QueryFramed (header : HwioPacketHeader) : Prop :=
  header.bodyLen.toNat % sizeofDevQueryItem = 0 ∧
    0 < header.bodyLen.toNat / sizeofDevQueryItem ∧
      header.bodyLen.toNat / sizeofDevQueryItem ≤ maxItemsPerQuery

theorem deviceLookupResp_oneFrame (tables : Tables World) (count : Nat) (ctx : Ctx World) :
    OneFrame (deviceLookupResp tables count ctx) := by
  unfold deviceLookupResp
  simp only
  split
  · exact oneFrame_error _ _
  · split
    · exact oneFrame_error _ _
    · rw [oneFrame_ok_iff]
      exact Or.inr rfl

/-- The texts for a query of a wrong size or number are short: a 16-bit number
has at most five digits. -/
theorem wrongSize_short (bodyLen : UInt16) :
    (text "QUERY: wrong size of packet " ++ decimal bodyLen.toNat ++
      text "(not divisible by " ++ decimal sizeofDevQueryItem ++ text ")").length <
        maxErrMsgLen - sizeofHeader := by
  have bodyDigits : (decimal bodyLen.toNat).length ≤ 5 :=
    decimal_length_le (by decide) (Nat.lt_trans bodyLen.toNat_lt (by decide))
  have itemDigits : (decimal sizeofDevQueryItem).length = 3 := by decide
  have front : (text "QUERY: wrong size of packet ").length = 28 := by decide
  have middle : (text "(not divisible by ").length = 18 := by decide
  have back : (text ")").length = 1 := by decide
  simp only [List.length_append, front, middle, back, itemDigits, maxErrMsgLen, sizeofHeader]
  omega

theorem wrongCount_short (bodyLen : UInt16) :
    (text "Unsupported number of queries (" ++ decimal (bodyLen.toNat / sizeofDevQueryItem) ++
      text ")\n").length < maxErrMsgLen - sizeofHeader := by
  have countDigits : (decimal (bodyLen.toNat / sizeofDevQueryItem)).length ≤ 5 :=
    decimal_length_le (by decide) (Nat.lt_of_le_of_lt (Nat.div_le_self _ _)
      (Nat.lt_trans bodyLen.toNat_lt (by decide)))
  have front : (text "Unsupported number of queries (").length = 31 := by decide
  have back : (text ")\n").length = 2 := by decide
  rw [List.length_append, List.length_append, front, back]
  simp only [maxErrMsgLen, sizeofHeader]
  omega

theorem handleQuery_framed (tables : Tables World) {header : HwioPacketHeader} (ctx : Ctx World)
    (framed : QueryFramed header) :
    handleQuery tables header ctx =
      deviceLookupResp tables (header.bodyLen.toNat / sizeofDevQueryItem) ctx := by
  obtain ⟨whole, positive, few⟩ := framed
  have size := Nat.div_add_mod header.bodyLen.toNat sizeofDevQueryItem
  rw [whole, Nat.add_zero, Nat.mul_comm] at size
  exact handleQuery_allowed tables ctx size.symm positive few

/-- Every other query is refused with a short text. -/
theorem handleQuery_unframed {header : HwioPacketHeader} (unframed : ¬ QueryFramed header) :
    ∃ code msg, msg.length < maxErrMsgLen - sizeofHeader ∧
      ∀ (tables : Tables World) ctx, handleQuery tables header ctx = ctx.sendErr code msg := by
  have division := Nat.div_add_mod header.bodyLen.toNat sizeofDevQueryItem
  unfold handleQuery
  by_cases whole : header.bodyLen.toNat =
      header.bodyLen.toNat / sizeofDevQueryItem * sizeofDevQueryItem
  case neg =>
    refine ⟨.malformedPacket, _, wrongSize_short header.bodyLen, fun tables ctx => ?_⟩
    exact if_pos whole
  have exactly : header.bodyLen.toNat % sizeofDevQueryItem = 0 := by
    rw [Nat.mul_comm] at division
    omega
  have count : header.bodyLen.toNat / sizeofDevQueryItem = 0 ∨
      maxItemsPerQuery < header.bodyLen.toNat / sizeofDevQueryItem := by
    by_contra inside
    rw [not_or, Nat.not_lt] at inside
    exact unframed ⟨exactly, Nat.pos_of_ne_zero inside.1, inside.2⟩
  refine ⟨.unknownCommand, _, wrongCount_short header.bodyLen, fun tables ctx => ?_⟩
  simp only [if_neg (not_not_intro whole)]
  exact if_pos count

theorem handleQuery_oneFrame_iff (tables : Tables World) (header : HwioPacketHeader)
    (ctx : Ctx World) :
    OneFrame (handleQuery tables header ctx) ↔ QueryFramed header := by
  by_cases framed : QueryFramed header
  · rw [handleQuery_framed tables ctx framed]
    exact iff_of_true (deviceLookupResp_oneFrame _ _ _) framed
  · obtain ⟨code, msg, short, refusal⟩ := @handleQuery_unframed World header framed
    rw [refusal]
    exact iff_of_false (not_oneFrame_sendErr short ctx _) framed

/-! ## All requests -/

/-- The requests that are answered in exactly one frame or not at all. -/
def RequestFramed (tables : Tables World) (header : HwioPacketHeader) (ctx : Ctx World) :
    Prop :=
  match HwioCmd.ofCode header.command with
  | some .remoteCallFast => FastRemoteCallFramed tables header ctx
  | some .read => ReadFramed tables header ctx
  | some .write => WriteFramed header ctx
  | some .remoteCall => RemoteCallFramed tables header ctx
  | some .pingRequest => header.bodyLen = 0
  | some .query => QueryFramed header
  | some .getRemoteCallId => GetRpcFnIdFramed header ctx
  | some .bye => True
  | some .msg => True
  | _ => False

/-- A reply is exactly one frame just for these requests. -/
theorem handleMsg_oneFrame_iff (tables : Tables World) (header : HwioPacketHeader)
    (ctx : Ctx World) :
    OneFrame (handleMsg tables header ctx) ↔ RequestFramed tables header ctx := by
  have unknown : OneFrame (ctx.sendErr .unknownCommand []) ↔ False :=
    iff_false_intro (not_oneFrame_sendErr (by decide) ctx _)
  unfold handleMsg RequestFramed
  cases HwioCmd.ofCode header.command with
  | none => exact unknown
  | some cmd =>
      cases cmd with
      | remoteCallFast => exact handleFastRemoteCall_oneFrame_iff tables header ctx
      | read => exact handleRead_oneFrame_iff tables header ctx
      | write => exact handleWrite_oneFrame_iff tables header ctx
      | remoteCall => exact handleRemoteCall_oneFrame_iff tables header ctx
      | pingRequest => exact handlePing_oneFrame_iff header ctx
      | query => exact handleQuery_oneFrame_iff tables header ctx
      | getRemoteCallId => exact handleGetRpcFnId_oneFrame_iff tables header ctx
      | bye | msg => exact iff_true_intro (Or.inl rfl)
      | readResp | pingReply | queryResp | remoteCallRet => exact unknown

/-- In every state a reply is exactly one frame just for these requests, and so
are all replies of a run just when all its requests are. -/
theorem replies_oneFrame_iff (tables : Tables World) :
    (∀ header ctx, OneFrame (handleMsg tables header ctx) ↔ RequestFramed tables header ctx) ∧
      ∀ master tx world server,
        HwioServer.Reached (HwioServer.prepared tables master tx world) server →
          ((∀ client header ctx,
              Requested tables (HwioServer.prepared tables master tx world).service server.trace
                client header ctx → OneFrame (handleMsg tables header ctx)) ↔
            ∀ client header ctx,
              Requested tables (HwioServer.prepared tables master tx world).service server.trace
                client header ctx → RequestFramed tables header ctx) := by
  refine ⟨handleMsg_oneFrame_iff tables, fun master tx world server _ => ?_⟩
  constructor
  · intro framed client header ctx requested
    exact (handleMsg_oneFrame_iff tables header ctx).mp (framed client header ctx requested)
  · intro wanted client header ctx requested
    exact (handleMsg_oneFrame_iff tables header ctx).mpr (wanted client header ctx requested)

theorem ping_reply_oneFrame :
    OneFrame (handleMsg HwioServer.bareTables ⟨HwioCmd.pingRequest.code, 0⟩
      ((HwioServer.prepared HwioServer.bareTables 3 [] ()).service.request 0 [])) :=
  ((replies_oneFrame_iff HwioServer.bareTables).1 _ _).mpr rfl

/-- A READ of a device that the client does not have: 1028 bytes are sent for
an error frame that has 36. -/
theorem read_error_not_oneFrame :
    let start := HwioServer.prepared HwioServer.bareTables 3 (List.replicate bufferSize 0) ()
    ∃ server header ctx, HwioServer.Reached start server ∧
      Requested HwioServer.bareTables start.service server.trace 0 header ctx ∧
      ¬ OneFrame (handleMsg HwioServer.bareTables header ctx) := by
  intro start
  let server := HwioServer.loneRun HwioServer.bareTables (List.replicate bufferSize 0) ()
    [1, 8, 0, 0, 0, 0, 0, 0, 0, 4, 0]
  have dispatched : server.trace[6]? =
      some (.dispatched 0 0 ⟨1, 8⟩ [0, 0, 0, 0, 0, 0, 4, 0]) := by decide +kernel
  have free : clientGetDev ((start.service.after HwioServer.bareTables
      (server.trace.take 6)).request 0 [0, 0, 0, 0, 0, 0, 4, 0]).devices 0 = none := by
    decide +kernel
  refine ⟨server, _, _, HwioServer.loneRun_reached .., Requested.of_getElem? dispatched, ?_⟩
  rw [handleMsg_oneFrame_iff]
  rintro ⟨_, dev, resolved, _⟩
  rw [show loadU16 _ 0 = (0 : UInt16) from rfl, free] at resolved
  cases resolved

end Hwio
