import Hwio.Server.Plugins
import Hwio.Server.Registration
import Hwio.Server.ReplyFrame

/-!
Contract: what a reply shows of the replies before it.

Owns the requests whose reply does not depend on the old content of
`tx_buffer`, which all clients share.

Does not own the content of the replies.
-/

namespace Hwio

open Library

variable {World : Type}

/-! ## Replies over any old content -/

/-- The request that meets the given content of `tx_buffer`. -/
abbrev Ctx.writing (ctx : Ctx World) (tx : List Byte) : Ctx World := { ctx with tx := tx }

/-- Whatever `tx_buffer` held, the same bytes are sent. -/
def Determined (handled : List Byte → Handled World) : Prop :=
  ∀ tx tx', tx.length = bufferSize → tx'.length = bufferSize →
    replyBytes (handled tx) = replyBytes (handled tx')

/-- The reply to a request shows nothing of earlier replies. -/
def NothingLeftOver (tables : Tables World) (header : HwioPacketHeader) (ctx : Ctx World) : Prop :=
  Determined fun tx => handleMsg tables header (ctx.writing tx)

theorem determined_of_eq {handled : List Byte → Handled World} {bytes : List Byte}
    (same : ∀ tx, replyBytes (handled tx) = bytes) : Determined handled :=
  fun tx tx' _ _ => (same tx).trans (same tx').symm

theorem determined_error (stop : Stop) (ctx : List Byte → Ctx World) :
    Determined fun tx => (.error stop, ctx tx) :=
  determined_of_eq fun _ => rfl

/-! ## Error frames -/

theorem replyBytes_sendErr (ctx : Ctx World) (errCode : HwioServerError) (msg : Text) :
    replyBytes (ctx.sendErr errCode msg) =
      (HwioPacketHeader.mk HwioCmd.msg.code (UInt16.ofNat (4 + errMsgLen ctx.tx msg))).bytes ++
        (u32Bytes errCode.code ++ (strncpy msg maxErrMsgLen).take (maxErrMsgLen - sizeofHeader)) :=
  sendErr_sent errCode msg ctx.tx

/-- Two error frames with one text are the same when `strlen` finds the same
length. -/
theorem replyBytes_sendErr_eq_iff (ctx ctx' : Ctx World) (errCode : HwioServerError)
    (msg : Text) :
    replyBytes (ctx.sendErr errCode msg) = replyBytes (ctx'.sendErr errCode msg) ↔
      UInt16.ofNat (4 + errMsgLen ctx.tx msg) = UInt16.ofNat (4 + errMsgLen ctx'.tx msg) := by
  rw [replyBytes_sendErr, replyBytes_sendErr]
  constructor
  · intro same
    have headers := HwioPacketHeader.bytes_injective (List.append_inj_left same (by simp))
    exact congrArg HwioPacketHeader.bodyLen headers
  · intro lengths
    rw [lengths]

/-- The `tx_buffer` that holds zeros but for one byte. -/
def txWith (position : Nat) (byte : Byte) : List Byte :=
  List.replicate position 0 ++ byte :: List.replicate (bufferSize - position - 1) 0

theorem txWith_length {position : Nat} (inside : position < bufferSize) (byte : Byte) :
    (txWith position byte).length = bufferSize := by
  rw [txWith, List.length_append, List.length_replicate, List.length_cons, List.length_replicate]
  omega

theorem txWith_drop (position : Nat) (byte : Byte) :
    (txWith position byte).drop position =
      byte :: List.replicate (bufferSize - position - 1) 0 := by
  rw [txWith, List.drop_append, List.length_replicate, Nat.sub_self, List.drop_zero,
    List.drop_of_length_le (by simp), List.nil_append]

/-- What `strlen` finds from some place on tells whether that byte is zero. -/
theorem cstr_txWith (position : Nat) :
    (cstr ((txWith position 0).drop position)).length = 0 ∧
      (cstr ((txWith position 1).drop position)).length = 1 := by
  rw [txWith_drop, txWith_drop, cstr_cons_zero, cstr_cons_of_ne (by decide)]
  refine ⟨rfl, ?_⟩
  cases bufferSize - position - 1 <;> rfl

/-- An error frame that follows a store is determined by a text that is shorter
than the message field, or when the bytes stored behind the field hold a zero
or reach the end of `tx_buffer`. -/
theorem sendErr_stored_determined_iff (ctx : Ctx World) (cmd : HwioCmd) (size : Nat)
    (body : List Byte) (errCode : HwioServerError) (msg : Text) :
    (Determined fun tx =>
        (ctx.writing (store (setBodyLen (setCommand tx cmd) size) sizeofHeader body)).sendErr
          errCode msg) ↔
      (cstr msg).length < maxErrMsgLen ∨ 0 ∈ body.drop sizeofErrMsg ∨
        bufferSize ≤ sizeofHeader + body.length := by
  let position := max (sizeofHeader + sizeofErrMsg) (sizeofHeader + body.length)
  -- behind the field lies the rest of the body and then the old content
  have behind : ∀ tx : List Byte,
      (store (setBodyLen (setCommand tx cmd) size) sizeofHeader body).drop
        (sizeofHeader + sizeofErrMsg) = body.drop sizeofErrMsg ++ tx.drop position := by
    intro tx
    rw [store_drop _ (Nat.le_add_right _ _), Nat.add_sub_cancel_left, setBodyLen, setCommand,
      store_drop_after, store_drop_after]
    · simp only [List.length_singleton, sizeofHeader]
      omega
    · simp only [leBytes_length, sizeofHeader]
      omega
  constructor
  · intro determined
    by_cases short : (cstr msg).length < maxErrMsgLen
    · exact Or.inl short
    right
    by_cases ends : 0 ∈ body.drop sizeofErrMsg
    · exact Or.inl ends
    right
    refine Nat.le_of_not_lt fun room => ?_
    have inside : position < bufferSize := Nat.max_lt.mpr ⟨by decide, room⟩
    have long := Nat.le_of_not_lt short
    have same := determined (txWith position 0) (txWith position 1) (txWith_length inside 0)
      (txWith_length inside 1)
    rw [replyBytes_sendErr_eq_iff, errMsgLen_of_long _ long, errMsgLen_of_long _ long, behind,
      behind, cstr_append_of_not_mem ends, cstr_append_of_not_mem ends, List.length_append,
      List.length_append, (cstr_txWith position).1, (cstr_txWith position).2] at same
    have lengths := congrArg UInt16.toNat same
    rw [UInt16.toNat_ofNat', UInt16.toNat_ofNat'] at lengths
    omega
  · intro found tx tx' length length'
    rw [replyBytes_sendErr_eq_iff]
    by_cases short : (cstr msg).length < maxErrMsgLen
    · rw [errMsgLen_of_short _ short, errMsgLen_of_short _ short]
    have long := Nat.le_of_not_lt short
    rw [errMsgLen_of_long _ long, errMsgLen_of_long _ long, behind, behind]
    rcases found with short' | ends | full
    · exact absurd short' short
    · rw [cstr_append_of_mem ends, cstr_append_of_mem ends]
    · have beyond : bufferSize ≤ position := Nat.le_trans full (Nat.le_max_right _ _)
      rw [@List.drop_of_length_le _ position tx (length ▸ beyond),
        @List.drop_of_length_le _ position tx' (length' ▸ beyond)]

/-- An error frame is determined by a text that is shorter than the message
field, and by no other. -/
theorem sendErr_determined_iff (ctx : Ctx World) (errCode : HwioServerError) (msg : Text) :
    (Determined fun tx => (ctx.writing tx).sendErr errCode msg) ↔
      (cstr msg).length < maxErrMsgLen := by
  constructor
  · intro determined
    refine Nat.lt_of_not_le fun long => ?_
    have inside : sizeofHeader + sizeofErrMsg < bufferSize := by decide
    have same := determined _ _ (txWith_length inside 0) (txWith_length inside 1)
    rw [replyBytes_sendErr_eq_iff, errMsgLen_of_long _ long, errMsgLen_of_long _ long,
      (cstr_txWith _).1, (cstr_txWith _).2] at same
    exact absurd same (by decide)
  · intro short tx tx' _ _
    rw [replyBytes_sendErr_eq_iff, errMsgLen_of_short _ short, errMsgLen_of_short _ short]

/-- The texts of the source are all short. -/
theorem sendErr_determined {msg : Text} (short : msg.length < maxErrMsgLen)
    (ctx : List Byte → Ctx World) (errCode : HwioServerError) :
    Determined fun tx => (ctx tx).sendErr errCode msg := by
  have shown := Nat.lt_of_le_of_lt (cstr_length_le msg) short
  intro tx tx' _ _
  rw [replyBytes_sendErr_eq_iff, errMsgLen_of_short _ shown, errMsgLen_of_short _ shown]

/-! ## The requests of each command -/

theorem handleRead_determined (tables : Tables World) (header : HwioPacketHeader)
    (ctx : Ctx World) : Determined fun tx => handleRead tables header (ctx.writing tx) := by
  unfold handleRead
  by_cases size : header.bodyLen.toNat = sizeofRdReq
  case neg =>
    simp only [if_pos size]
    exact sendErr_determined (by decide) _ _
  simp only [if_neg (not_not_intro size)]
  cases clientGetDev ctx.devices (loadU16 ctx.rx 0) with
  | none => exact sendErr_determined (by decide) _ _
  | some dev =>
      have full := (tables.device dev).read_all (loadU32 ctx.rx 2) (loadU16 ctx.rx 6).toNat
        ctx.world
      simp only
      generalize (tables.device dev).read (loadU32 ctx.rx 2) (loadU16 ctx.rx 6).toNat
        ctx.world = result at full
      cases thrown : result.1.thrown with
      | none =>
          simp only
          rw [← full thrown]
          exact determined_of_eq fun tx => load_reply tx _ _ _
      | some exn =>
          simp only
          cases exn.isRuntimeError with
          | false => exact determined_error _ _
          | true => exact sendErr_determined (by decide) _ _

theorem handleWrite_determined (tables : Tables World) (header : HwioPacketHeader)
    (ctx : Ctx World) : Determined fun tx => handleWrite tables header (ctx.writing tx) := by
  unfold handleWrite
  by_cases size : header.bodyLen.toNat < sizeofWrReq
  · simp only [if_pos size]
    exact sendErr_determined (by decide) _ _
  simp only [if_neg size]
  by_cases limit : maxDevices ≤ (loadU16 ctx.rx 0).toNat
  · simp only [if_pos limit]
    exact sendErr_determined (by decide) _ _
  simp only [if_neg limit]
  cases clientGetDev ctx.devices (loadU16 ctx.rx 0) with
  | none => exact sendErr_determined (by decide) _ _
  | some dev =>
      simp only
      cases ((tables.device dev).write (loadU32 ctx.rx 2)
        (load ctx.rx sizeofWrReq (loadU16 ctx.rx 6).toNat) ctx.world).1 with
      | none => exact determined_of_eq fun _ => rfl
      | some exn => exact determined_error _ _

/-- The text for an exception of a plugin. -/
def pluginRaised (what : Text) : Text :=
  text "Call of plugin function raised and exception " ++ what

/-- When a plugin throws a run-time error, its text is short, or the plugin
stored a zero behind the message field or up to the end of `tx_buffer`. -/
def PluginDetermined (plugin : PluginInfo World) (dev : DevPtr) (argsOffset : Nat)
    (ctx : Ctx World) : Prop :=
  let out := (plugin.fn dev (load ctx.rx argsOffset plugin.argsSize) ctx.world).1
  ∀ exn, out.thrown = some exn → exn.isRuntimeError = true →
    (cstr (pluginRaised exn.what)).length < maxErrMsgLen ∨ 0 ∈ out.ret.drop sizeofErrMsg ∨
      bufferSize ≤ sizeofHeader + out.ret.length

/-- A plugin that returns has stored all of its result. -/
def PluginInfo.Fills (plugin : PluginInfo World) : Prop :=
  ∀ dev args world, (plugin.fn dev args world).1.thrown = none →
    (plugin.fn dev args world).1.ret.length = plugin.retSize

theorem callPlugin_determined_iff {plugin : PluginInfo World} (fills : plugin.Fills)
    (key : PluginKey) (dev : DevPtr) (argsOffset : Nat) (ctx : Ctx World) :
    (Determined fun tx => callPlugin plugin key dev argsOffset (ctx.writing tx)) ↔
      PluginDetermined plugin dev argsOffset ctx := by
  have full := fills dev (load ctx.rx argsOffset plugin.argsSize) ctx.world
  unfold callPlugin PluginDetermined
  simp only
  generalize plugin.fn dev (load ctx.rx argsOffset plugin.argsSize) ctx.world = result at full
  cases thrown : result.1.thrown with
  | none =>
      refine iff_of_true ?_ fun exn never => by cases never
      simp only
      by_cases returns : plugin.retSize = 0
      · simp only [if_neg (not_not_intro returns)]
        exact determined_of_eq fun _ => rfl
      · simp only [if_pos returns]
        rw [← full thrown]
        exact determined_of_eq fun tx => load_reply tx _ _ _
  | some exn =>
      simp only [Option.some.injEq, forall_eq']
      cases exn.isRuntimeError with
      | false => exact iff_of_true (determined_error _ _) fun never => by cases never
      | true =>
          rw [forall_prop_of_true rfl]
          exact sendErr_stored_determined_iff { ctx with
            world := result.2
            calls := ctx.calls ++ [.plugin key dev (load ctx.rx argsOffset plugin.argsSize)] }
            _ _ _ _ _

/-- The name of a plugin call is that of a plugin, or short enough for the
error text that embeds it. -/
def RemoteCallDetermined (tables : Tables World) (header : HwioPacketHeader) (ctx : Ctx World) :
    Prop :=
  sizeofRemoteCall - 1 ≤ header.bodyLen.toNat →
    ∀ dev, clientGetDev ctx.devices (loadU16 ctx.rx 0) = some dev →
      match tables.findPlugin (cstr (ctx.rx.drop 2)) with
      | none => (notRegistered (cstr (ctx.rx.drop 2))).length < maxErrMsgLen
      | some plugin => PluginDetermined plugin dev sizeofRemoteCall ctx

theorem handleRemoteCall_determined_iff {tables : Tables World} (header : HwioPacketHeader)
    (ctx : Ctx World)
    (fills : ∀ name plugin, tables.findPlugin name = some plugin → plugin.Fills) :
    (Determined fun tx => handleRemoteCall tables header (ctx.writing tx)) ↔
      RemoteCallDetermined tables header ctx := by
  unfold handleRemoteCall RemoteCallDetermined
  by_cases size : header.bodyLen.toNat < sizeofRemoteCall - 1
  · simp only [if_pos size]
    exact iff_of_true (sendErr_determined (by decide) _ _)
      fun enough => absurd size (Nat.not_lt.mpr enough)
  simp only [if_neg size]
  rw [forall_prop_of_true (Nat.le_of_not_lt size)]
  cases clientGetDev ctx.devices (loadU16 ctx.rx 0) with
  | none => exact iff_of_true (sendErr_determined (by decide) _ _) fun dev same => by cases same
  | some dev =>
      simp only [Option.some.injEq, forall_eq']
      cases found : tables.findPlugin (cstr (ctx.rx.drop 2)) with
      | none =>
          simp only
          have free : 0 ∉ notRegistered (cstr (ctx.rx.drop 2)) := by
            unfold notRegistered
            simp only [List.mem_append, not_or]
            exact ⟨⟨by decide, zero_not_mem_cstr _⟩, by decide⟩
          rw [← cstr_of_not_mem free]
          exact sendErr_determined_iff ctx _ _
      | some plugin => exact callPlugin_determined_iff (fills _ plugin found) _ dev _ ctx

def FastRemoteCallDetermined (tables : Tables World) (header : HwioPacketHeader)
    (ctx : Ctx World) : Prop :=
  sizeofRemoteCallFast - 1 ≤ header.bodyLen.toNat →
    ∀ dev, clientGetDev ctx.devices (loadU16 ctx.rx 0) = some dev →
      ∀ plugin, tables.pluginsFast[(loadU32 ctx.rx 2).toNat]? = some plugin →
        PluginDetermined plugin dev sizeofRemoteCallFast ctx

theorem handleFastRemoteCall_determined_iff {tables : Tables World} (header : HwioPacketHeader)
    (ctx : Ctx World) (fills : ∀ plugin ∈ tables.pluginsFast, plugin.Fills) :
    (Determined fun tx => handleFastRemoteCall tables header (ctx.writing tx)) ↔
      FastRemoteCallDetermined tables header ctx := by
  unfold handleFastRemoteCall FastRemoteCallDetermined
  by_cases size : header.bodyLen.toNat < sizeofRemoteCallFast - 1
  · simp only [if_pos size]
    exact iff_of_true (sendErr_determined (by decide) _ _)
      fun enough => absurd size (Nat.not_lt.mpr enough)
  simp only [if_neg size]
  rw [forall_prop_of_true (Nat.le_of_not_lt size)]
  cases clientGetDev ctx.devices (loadU16 ctx.rx 0) with
  | none => exact iff_of_true (sendErr_determined (by decide) _ _) fun dev same => by cases same
  | some dev =>
      simp only [Option.some.injEq, forall_eq']
      cases found : tables.pluginsFast[(loadU32 ctx.rx 2).toNat]? with
      | none =>
          have short := fastNotRegistered_short (loadU32 ctx.rx 2)
          refine iff_of_true (sendErr_determined ?_ _ _) fun plugin same => by cases same
          exact Nat.lt_of_lt_of_le short (Nat.sub_le _ _)
      | some plugin =>
          simp only [Option.some.injEq, forall_eq']
          exact callPlugin_determined_iff (fills plugin (List.mem_of_getElem? found)) _ dev _ ctx

theorem handleGetRpcFnId_determined (tables : Tables World) (header : HwioPacketHeader)
    (ctx : Ctx World) : Determined fun tx => handleGetRpcFnId tables header (ctx.writing tx) := by
  by_cases size : header.bodyLen.toNat < sizeofGetRemoteCallId
  · simp only [handleGetRpcFnId, if_pos size]
    exact sendErr_determined (by decide) _ _
  cases resolved : clientGetDev ctx.devices (loadU16 ctx.rx 0) with
  | none =>
      simp only [handleGetRpcFnId, if_neg size, resolved]
      exact sendErr_determined (by decide) _ _
  | some dev =>
      have answer := fun tx => handleGetRpcFnId_resolved tables (ctx.writing tx)
        (Nat.le_of_not_lt size) resolved
      simp only [answer]
      exact determined_of_eq fun tx => load_getRpcFnIdReply tx
        (tables.pluginsFastNames.findIdx? fun name => cstr (ctx.rx.drop 2) = name)

theorem handlePing_determined (header : HwioPacketHeader) (ctx : Ctx World) :
    Determined fun tx => handlePing header (ctx.writing tx) := by
  unfold handlePing
  by_cases size : header.bodyLen = 0
  · simp only [if_neg (not_not_intro size)]
    exact determined_of_eq fun tx => load_header tx _ _
  · simp only [if_pos size]
    exact sendErr_determined (by decide) _ _

/-- Memories that agree on a header have the same one. -/
theorem replyHeader_agree {tx tx' : List Byte} {more : Nat}
    (agree : load tx 0 (sizeofHeader + more) = load tx' 0 (sizeofHeader + more)) :
    replyHeader tx = replyHeader tx' := by
  have front := congrArg (List.take sizeofHeader) agree
  rw [load_take _ _ (Nat.le_add_right _ _), load_take _ _ (Nat.le_add_right _ _)] at front
  apply HwioPacketHeader.at_of_load
  rw [front, replyHeader, HwioPacketHeader.bytes_at]

/-- A reply that sends no more than what agrees is the same. -/
theorem replyBytes_agree {left right : Ctx World} {more : Nat} (disconnect : Bool)
    (agree : load left.tx 0 (sizeofHeader + more) = load right.tx 0 (sizeofHeader + more))
    (fits : (replyHeader left.tx).bodyLen.toNat ≤ more) :
    replyBytes (.ok ⟨disconnect, sizeofHeader + (replyHeader left.tx).bodyLen.toNat⟩, left) =
      replyBytes (.ok ⟨disconnect, sizeofHeader + (replyHeader right.tx).bodyLen.toNat⟩, right) := by
  have size := Nat.add_le_add_left fits sizeofHeader
  show load left.tx 0 _ = load right.tx 0 _
  rw [← replyHeader_agree agree, ← load_take left.tx 0 size, agree, load_take right.tx 0 size]

/-- Registering the same devices makes replies that agree up to the last id
agree up to the next ones. -/
theorem registerDevices_agree (tables : Tables World) (devs : List DevPtr) (i : Nat)
    (ctx : Ctx World) {tx tx' : List Byte}
    (agree : load tx 0 (sizeofHeader + sizeofDevId * i) =
      load tx' 0 (sizeofHeader + sizeofDevId * i)) :
    let left := registerDevices tables devs i (ctx.writing tx)
    let right := registerDevices tables devs i (ctx.writing tx')
    left.1 = right.1 ∧ (left.1 = .ok () →
      load left.2.tx 0 (sizeofHeader + sizeofDevId * (i + devs.length)) =
        load right.2.tx 0 (sizeofHeader + sizeofDevId * (i + devs.length))) := by
  induction devs generalizing i ctx tx tx' with
  | nil => exact ⟨rfl, fun _ => agree⟩
  | cons dev rest inductionHypothesis =>
      simp only [registerDevices]
      rw [registerDevice_buffers tables dev ctx ctx.rx tx,
        registerDevice_buffers tables dev ctx ctx.rx tx']
      rcases registerDevice tables dev ctx with ⟨result, after⟩
      cases result with
      | error stop => exact ⟨rfl, fun never => by cases never⟩
      | ok devId =>
          simp only
          rw [replyHeader_agree agree]
          -- the length lies in the part that agrees, and the id right behind it
          have counted := load_store_agree agree (show 1 ≤ sizeofHeader + sizeofDevId * i by
            simp only [sizeofHeader]
            omega) (leBytes 2 ((replyHeader tx').bodyLen.toNat + sizeofDevId))
          rw [leBytes_length, Nat.max_eq_left (by simp only [sizeofHeader]; omega)] at counted
          have placed := load_store_agree counted (Nat.le_refl _) (u16Bytes devId)
          rw [u16Bytes_length, Nat.max_eq_right (Nat.le_add_right _ _)] at placed
          have later := @inductionHypothesis (i + 1) { after with rx := ctx.rx } _ _ placed
          rw [Nat.add_right_comm, Nat.add_assoc] at later
          exact later

theorem deviceLookupResp_determined (tables : Tables World) (count : Nat) (ctx : Ctx World) :
    Determined fun tx => deviceLookupResp tables count (ctx.writing tx) := by
  intro tx tx' _ _
  have looked := fun tx => findOnBuses_buffers (extractSpecFromClientQuery ctx.rx count)
    tables.buses 0 ctx ctx.rx (setCommand tx .queryResp)
  simp only [deviceLookupResp, looked]
  rcases findOnBuses (extractSpecFromClientQuery ctx.rx count) tables.buses 0 ctx with
    ⟨result, after⟩
  cases result with
  | error stop => rfl
  | ok found =>
      simp only
      have empty : ∀ tx : List Byte,
          load (setBodyLen (setCommand tx .queryResp) 0) 0 (sizeofHeader + sizeofDevId * 0) =
            (HwioPacketHeader.mk HwioCmd.queryResp.code 0).bytes :=
        fun tx => load_header tx _ _
      have none : (replyHeader (setBodyLen (setCommand tx .queryResp) 0)).bodyLen.toNat = 0 := by
        rw [replyHeader_setBodyLen]
        rfl
      obtain ⟨same, agree⟩ := registerDevices_agree tables found 0 { after with rx := ctx.rx }
        ((empty tx).trans (empty tx').symm)
      obtain ⟨ids, world, devices, reply, calls, left, _, _, _, bodyLen, counted⟩ :=
        registerDevices_spec tables found 0
          { after with rx := ctx.rx, tx := setBodyLen (setCommand tx .queryResp) 0 }
          (by rw [setBodyLen_length]; exact Nat.le_max_right _ _)
      rcases registering : registerDevices tables found 0
        { after with rx := ctx.rx, tx := setBodyLen (setCommand tx .queryResp) 0 } with
        ⟨result, last⟩
      rcases registering' : registerDevices tables found 0
        { after with rx := ctx.rx, tx := setBodyLen (setCommand tx' .queryResp) 0 } with
        ⟨result', last'⟩
      rw [registering, registering'] at same agree
      rw [registering] at left counted
      simp only at same agree left counted ⊢
      subst same left
      cases result with
      | error stop => rfl
      | ok done =>
          rw [if_pos rfl] at counted
          refine replyBytes_agree false (agree rfl) ?_
          show (replyHeader reply).bodyLen.toNat ≤ _
          rw [bodyLen, none, counted, Nat.zero_add, Nat.zero_add]
          exact Nat.mod_le _ _

theorem handleQuery_determined (tables : Tables World) (header : HwioPacketHeader)
    (ctx : Ctx World) : Determined fun tx => handleQuery tables header (ctx.writing tx) := by
  by_cases framed : QueryFramed header
  · simp only [handleQuery_framed tables _ framed]
    exact deviceLookupResp_determined tables _ ctx
  · obtain ⟨code, msg, short, refusal⟩ := @handleQuery_unframed World header framed
    simp only [refusal]
    exact sendErr_determined (Nat.lt_of_lt_of_le short (Nat.sub_le _ _)) _ _

/-! ## All requests -/

/-- The requests whose reply does not show earlier ones. -/
def RequestDetermined (tables : Tables World) (header : HwioPacketHeader) (ctx : Ctx World) :
    Prop :=
  match HwioCmd.ofCode header.command with
  | some .remoteCallFast => FastRemoteCallDetermined tables header ctx
  | some .remoteCall => RemoteCallDetermined tables header ctx
  | _ => True

/-- All plugins return whole results. -/
structure Tables.Fill (tables : Tables World) : Prop where
  named : ∀ name plugin, tables.findPlugin name = some plugin → plugin.Fills
  fast : ∀ plugin ∈ tables.pluginsFast, plugin.Fills

/-- In every state the reply to a request is independent of the old content of
`tx_buffer` just when it is no error frame with a text of the size of the
message field or more, but for one that the bytes of a plugin end. -/
theorem reply_determined_iff {tables : Tables World} (fills : tables.Fill)
    (header : HwioPacketHeader) (ctx : Ctx World) :
    NothingLeftOver tables header ctx ↔ RequestDetermined tables header ctx := by
  unfold NothingLeftOver RequestDetermined handleMsg
  have unknown : Determined fun tx => (ctx.writing tx).sendErr .unknownCommand [] :=
    sendErr_determined (by decide) _ _
  cases HwioCmd.ofCode header.command with
  | none => exact iff_true_intro unknown
  | some cmd =>
      cases cmd with
      | remoteCallFast => exact handleFastRemoteCall_determined_iff header ctx fills.fast
      | read => exact iff_true_intro (handleRead_determined tables header ctx)
      | write => exact iff_true_intro (handleWrite_determined tables header ctx)
      | remoteCall => exact handleRemoteCall_determined_iff header ctx fills.named
      | pingRequest => exact iff_true_intro (handlePing_determined header ctx)
      | query => exact iff_true_intro (handleQuery_determined tables header ctx)
      | getRemoteCallId => exact iff_true_intro (handleGetRpcFnId_determined tables header ctx)
      | bye => exact iff_true_intro (determined_of_eq fun _ => rfl)
      | msg => exact iff_true_intro (determined_of_eq fun _ => rfl)
      | readResp => exact iff_true_intro unknown
      | pingReply => exact iff_true_intro unknown
      | queryResp => exact iff_true_intro unknown
      | remoteCallRet => exact iff_true_intro unknown

/-- In every state the bytes sent for a request show nothing that earlier
replies left in `tx_buffer` just for these requests, and so do those of all
requests of a run just when all its requests are such. -/
theorem replies_determined_iff {tables : Tables World} (fills : tables.Fill) :
    (∀ header ctx, NothingLeftOver tables header ctx ↔ RequestDetermined tables header ctx) ∧
      ∀ master tx world server,
        HwioServer.Reached (HwioServer.prepared tables master tx world) server →
          ((∀ client header ctx,
              Requested tables (HwioServer.prepared tables master tx world).service server.trace
                client header ctx → NothingLeftOver tables header ctx) ↔
            ∀ client header ctx,
              Requested tables (HwioServer.prepared tables master tx world).service server.trace
                client header ctx → RequestDetermined tables header ctx) := by
  refine ⟨reply_determined_iff fills, fun master tx world server _ => ?_⟩
  constructor
  · intro determined client header ctx requested
    exact (reply_determined_iff fills header ctx).mp (determined client header ctx requested)
  · intro wanted client header ctx requested
    exact (reply_determined_iff fills header ctx).mpr (wanted client header ctx requested)

theorem oneDevice_fill : HwioServer.oneDevice.Fill where
  named name plugin found := by cases found
  fast plugin member := by cases member

/-- A plugin that gives its argument back, but for a zero, at which it throws. -/
def echoPlugin : PluginInfo Unit where
  fn _ args _ :=
    (if args = [0] then ⟨[], some ⟨true, text "no zero"⟩⟩ else ⟨[args.headD 0], none⟩, ())
  argsSize := 1
  retSize := 1
  ret_le dev args world := by
    dsimp only
    split
    · exact Nat.zero_le 1
    · exact Nat.le_refl 1

theorem echoPlugin_fills : echoPlugin.Fills := by
  intro dev args world returned
  unfold echoPlugin at returned ⊢
  dsimp only at returned ⊢
  split at returned
  · cases returned
  next other => rw [if_neg other]; rfl

/-- The tables of one device with this plugin. -/
def echoTables : Tables Unit := installPluginFn (text "echo") echoPlugin HwioServer.oneDevice

theorem echoTables_fill : echoTables.Fill where
  named name plugin found := by
    by_cases same : name = text "echo"
    · rw [same, Tables.findPlugin, echoTables, installPluginFn, AList.lookup_insert] at found
      exact Option.some.inj found ▸ echoPlugin_fills
    · rw [Tables.findPlugin, echoTables, installPluginFn, AList.lookup_insert_ne same] at found
      cases found
  fast plugin member := by
    obtain rfl := List.mem_singleton.mp member
    exact echoPlugin_fills

/-- The call of the plugin by its id for the device, with one argument. -/
def echoCall (argument : Byte) : Ctx Unit :=
  { (HwioServer.prepared echoTables 3 [] ()).service.request 0 [0, 0, 0, 0, 0, 0, argument] with
    devices := [some 0] }

/-- Neither the byte that comes back nor the error text shows earlier replies. -/
theorem echo_replies_determined :
    NothingLeftOver echoTables ⟨HwioCmd.remoteCallFast.code, 7⟩ (echoCall 5) ∧
      NothingLeftOver echoTables ⟨HwioCmd.remoteCallFast.code, 7⟩ (echoCall 0) := by
  constructor
  · apply ((replies_determined_iff echoTables_fill).1 _ _).mpr
    intro _ dev held plugin found exn threw
    obtain rfl : echoPlugin = plugin := Option.some.inj found
    cases threw
  · apply ((replies_determined_iff echoTables_fill).1 _ _).mpr
    intro _ dev held plugin found exn threw _
    obtain rfl : echoPlugin = plugin := Option.some.inj found
    obtain rfl : ⟨true, text "no zero"⟩ = exn := Option.some.inj threw
    exact Or.inl (by decide)

/-- The REMOTE_CALL of a name of a thousand characters without an end. -/
def endlessNameFrame : List Byte := [10, 0xEA, 3, 0, 0] ++ List.replicate 1000 65

/-- A device owner calls a name without an end: the length in the error frame
counts what follows the message field. -/
theorem endless_name_not_determined :
    let start := HwioServer.prepared HwioServer.oneDevice 3 (List.replicate bufferSize 0) ()
    ∃ server header ctx, HwioServer.Reached start server ∧
      Requested HwioServer.oneDevice start.service server.trace 0 header ctx ∧
      ¬ NothingLeftOver HwioServer.oneDevice header ctx := by
  intro start
  let server := HwioServer.loneRun HwioServer.oneDevice (List.replicate bufferSize 0) ()
    (HwioServer.queryFrame ++ endlessNameFrame)
  have dispatched : server.trace[11]? =
      some (.dispatched 0 399 ⟨10, 1002⟩ (endlessNameFrame.drop 3)) := by decide +kernel
  have resolved : clientGetDev ((start.service.after HwioServer.oneDevice
      (server.trace.take 11)).request 0 (endlessNameFrame.drop 3)).devices 0 = some 0 := by
    decide +kernel
  refine ⟨server, _, _, HwioServer.loneRun_reached .., Requested.of_getElem? dispatched, ?_⟩
  rw [reply_determined_iff oneDevice_fill]
  intro determined
  have remote : RemoteCallDetermined HwioServer.oneDevice ⟨10, 1002⟩
      ((start.service.after HwioServer.oneDevice (server.trace.take 11)).request 0
        (endlessNameFrame.drop 3)) := determined
  have short := remote (by decide) 0 resolved
  have long : ¬ (notRegistered (cstr ((endlessNameFrame.drop 3).drop 2))).length <
      maxErrMsgLen := by
    decide +kernel
  exact long short

end Hwio
