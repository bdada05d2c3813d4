import Hwio.Server.Answers
import Hwio.Server.Registration
import Hwio.Server.ReplyFrame

/-!
Contract: requests that are answered with an error before anything is done.

Owns the ways in which `handle_msg` ends, the error code that a reply reports,
and what a rejected request leaves of the server and of its connection.

Does not own failures inside a device or a plugin.
-/

namespace Hwio

open Library

variable {World : Type}

/-! ## The outcomes of `handle_msg` -/

/-- How `handle_msg` ends: the request is refused before anything is done for
it, it fails in a device or plugin, it is done, or an exception or assertion
leaves it. -/
inductive Outcome (ctx : Ctx World) : Handled World → Prop
  | refused (errCode : HwioServerError) (msg : Text) (tx : List Byte)
      (early : errCode ≠ .ioError) :
      Outcome ctx (Ctx.sendErr { ctx with tx := tx } errCode msg)
  | failed (left : Ctx World) (msg : Text) : Outcome ctx (left.sendErr .ioError msg)
  | done (res : PProcRes) (left : Ctx World)
      (reply : res.txSize = 0 ∨ (replyHeader left.tx).command ≠ HwioCmd.msg.code) :
      Outcome ctx (.ok res, left)
  | stopped (stop : Stop) (left : Ctx World) : Outcome ctx (.error stop, left)

theorem Outcome.refuse {ctx : Ctx World} {errCode : HwioServerError} (msg : Text)
    (early : errCode ≠ .ioError) : Outcome ctx (ctx.sendErr errCode msg) :=
  .refused errCode msg ctx.tx early

theorem callPlugin_outcome (plugin : PluginInfo World) (key : PluginKey) (dev : DevPtr)
    (argsOffset : Nat) (ctx : Ctx World) :
    Outcome ctx (callPlugin plugin key dev argsOffset ctx) := by
  unfold callPlugin
  simp only
  split
  · split
    · refine .done _ _ (Or.inr ?_)
      rw [replyHeader_store _ _ (Nat.le_refl _), command_replied]
      decide
    · exact .done _ _ (Or.inl rfl)
  · split
    · exact .failed _ _
    · exact .stopped _ _

theorem handleRead_outcome (tables : Tables World) (header : HwioPacketHeader) (ctx : Ctx World) :
    Outcome ctx (handleRead tables header ctx) := by
  unfold handleRead
  split
  · exact .refuse _ (by decide)
  simp only
  split
  · exact .refuse _ (by decide)
  split
  · refine .done _ _ (Or.inr ?_)
    rw [replyHeader_store _ _ (Nat.le_refl _), command_replied]
    decide
  · split
    · exact .failed _ _
    · exact .stopped _ _

theorem handleWrite_outcome (tables : Tables World) (header : HwioPacketHeader)
    (ctx : Ctx World) : Outcome ctx (handleWrite tables header ctx) := by
  unfold handleWrite
  split
  · exact .refuse _ (by decide)
  simp only
  split
  · exact .refuse _ (by decide)
  split
  · exact .refuse _ (by decide)
  split
  · exact .done _ _ (Or.inl rfl)
  · exact .stopped _ _

theorem handleRemoteCall_outcome (tables : Tables World) (header : HwioPacketHeader)
    (ctx : Ctx World) : Outcome ctx (handleRemoteCall tables header ctx) := by
  unfold handleRemoteCall
  split
  · exact .refuse _ (by decide)
  split
  · exact .refuse _ (by decide)
  simp only
  split
  · exact .refuse _ (by decide)
  · exact callPlugin_outcome ..

theorem handleFastRemoteCall_outcome (tables : Tables World) (header : HwioPacketHeader)
    (ctx : Ctx World) : Outcome ctx (handleFastRemoteCall tables header ctx) := by
  unfold handleFastRemoteCall
  split
  · exact .refuse _ (by decide)
  split
  · exact .refuse _ (by decide)
  simp only
  split
  · exact .refuse _ (by decide)
  · exact callPlugin_outcome ..

theorem handleGetRpcFnId_outcome (tables : Tables World) (header : HwioPacketHeader)
    (ctx : Ctx World) : Outcome ctx (handleGetRpcFnId tables header ctx) := by
  by_cases size : header.bodyLen.toNat < sizeofGetRemoteCallId
  · rw [handleGetRpcFnId, if_pos size]
    exact .refuse _ (by decide)
  cases resolved : clientGetDev ctx.devices (loadU16 ctx.rx 0) with
  | none =>
      rw [handleGetRpcFnId, if_neg size]
      simp only [resolved]
      exact .refused _ _ _ (by decide)
  | some dev =>
      rw [handleGetRpcFnId_resolved tables ctx (Nat.le_of_not_lt size) resolved]
      refine .done _ _ (Or.inr ?_)
      rw [replyHeader_getRpcFnIdReply]
      exact (by decide : HwioCmd.getRemoteCallIdResp.code ≠ HwioCmd.msg.code)

theorem handlePing_outcome (header : HwioPacketHeader) (ctx : Ctx World) :
    Outcome ctx (handlePing header ctx) := by
  unfold handlePing
  split
  · exact .refuse _ (by decide)
  · refine .done _ _ (Or.inr ?_)
    rw [command_replied]
    decide

theorem handleQuery_outcome (tables : Tables World) (header : HwioPacketHeader)
    (ctx : Ctx World) : Outcome ctx (handleQuery tables header ctx) := by
  have queried := handleQuery_queried tables header ctx
  generalize handleQuery tables header ctx = answer at queried ⊢
  cases queried with
  | refused code message early => exact .refuse _ early
  | thrown onlyFind looking => exact .stopped _ _
  | stopped onlyFind looking results registered => exact .stopped _ _
  | @answered world finds found last onlyFind looking results registered =>
      obtain ⟨_, _, _, tx, _, left, _, _, command, _⟩ := registerDevices_spec tables found 0
        (ctx.registering world finds) (registering_room ctx world finds)
      rw [registered] at left
      simp only at left
      subst left
      refine .done _ _ (Or.inr ?_)
      rw [command]
      show (replyHeader (setBodyLen (setCommand ctx.tx .queryResp) 0)).command ≠ HwioCmd.msg.code
      rw [command_replied]
      decide

theorem handleMsg_outcome (tables : Tables World) (header : HwioPacketHeader) (ctx : Ctx World) :
    Outcome ctx (handleMsg tables header ctx) := by
  unfold handleMsg
  split
  · exact handleFastRemoteCall_outcome tables header ctx
  · exact handleRead_outcome tables header ctx
  · exact handleWrite_outcome tables header ctx
  · exact handleRemoteCall_outcome tables header ctx
  · exact handlePing_outcome header ctx
  · exact handleQuery_outcome tables header ctx
  · exact handleGetRpcFnId_outcome tables header ctx
  · exact .done _ _ (Or.inl rfl)
  · exact .done _ _ (Or.inl rfl)
  · exact .refuse _ (by decide)

/-! ## Rejections -/

/-- The code of the error that a reply reports. -/
def errorCode (reply : List Byte) : Option UInt32 :=
  if (HwioPacketHeader.at reply 0).command = HwioCmd.msg.code then some (loadU32 reply sizeofHeader)
  else none

/-- The reply is an error of one of the three kinds that refuse a request. -/
def Rejected (handled : Handled World) : Prop :=
  ∃ errCode ∈ [HwioServerError.malformedPacket, .unknownCommand, .accessDenied],
    errorCode (replyBytes handled) = some errCode.code

instance (handled : Handled World) : Decidable (Rejected handled) :=
  inferInstanceAs (Decidable (∃ errCode ∈ _, _))

theorem errorCode_sendErr (ctx : Ctx World) (errCode : HwioServerError) (msg : Text) :
    errorCode (replyBytes (ctx.sendErr errCode msg)) = some errCode.code := by
  have reply : replyBytes (ctx.sendErr errCode msg) = _ := sendErr_sent errCode msg ctx.tx
  have header : HwioPacketHeader.at (replyBytes (ctx.sendErr errCode msg)) 0 =
      ⟨HwioCmd.msg.code, UInt16.ofNat (4 + errMsgLen ctx.tx msg)⟩ := by
    apply HwioPacketHeader.at_of_load
    rw [reply, load_append_left _ (by simp), ← HwioPacketHeader.bytes_length, load_whole]
  have code : loadU32 (replyBytes (ctx.sendErr errCode msg)) sizeofHeader = errCode.code := by
    apply loadU32_of_load
    have behind := load_append_right
      (HwioPacketHeader.mk HwioCmd.msg.code (UInt16.ofNat (4 + errMsgLen ctx.tx msg))).bytes
      (u32Bytes errCode.code ++ (strncpy msg maxErrMsgLen).take (maxErrMsgLen - sizeofHeader)) 0 4
    rw [HwioPacketHeader.bytes_length, Nat.add_zero] at behind
    rw [reply, behind, load_append_left _ (by simp), ← u32Bytes_length errCode.code, load_whole]
  rw [errorCode, if_pos (congrArg HwioPacketHeader.command header), code]

theorem errorCode_done {res : PProcRes} {ctx : Ctx World}
    (reply : res.txSize = 0 ∨ (replyHeader ctx.tx).command ≠ HwioCmd.msg.code) :
    errorCode (replyBytes (.ok res, ctx)) = none := by
  apply if_neg
  show (load ctx.tx 0 res.txSize).getD 0 0 ≠ _
  rw [List.getD_eq_getElem?_getD, load_getElem?]
  rcases reply with none | other
  · rw [if_neg (by omega)]
    decide
  · by_cases empty : 0 < res.txSize
    · rw [if_pos empty]
      exact other
    · rw [if_neg empty]
      decide

/-- A rejected request changes nothing but the reply buffer, makes no call, and
asks for the disconnect. -/
theorem rejected_eq {tables : Tables World} {header : HwioPacketHeader} {ctx : Ctx World}
    (rejected : Rejected (handleMsg tables header ctx)) :
    ∃ tx, handleMsg tables header ctx = (.ok ⟨true, sizeofErrMsg⟩, { ctx with tx := tx }) := by
  obtain ⟨errCode, listed, code⟩ := rejected
  have outcome := handleMsg_outcome tables header ctx
  generalize handleMsg tables header ctx = handled at code outcome
  cases outcome with
  | refused other msg tx early => exact ⟨_, rfl⟩
  | failed left msg =>
      have other : ∀ errCode ∈ [HwioServerError.malformedPacket, .unknownCommand, .accessDenied],
          some HwioServerError.ioError.code ≠ some errCode.code := by decide
      rw [errorCode_sendErr] at code
      exact absurd code (other errCode listed)
  | done res left reply =>
      rw [errorCode_done reply] at code
      cases code
  | stopped stop left => cases code

namespace HwioServer

/-- All that may have changed is the reply buffer, the history, and the receive
buffer of one client. -/
structure OnlyBuffers (client : ClientPtr) (before after : HwioServer World) : Prop where
  tables : after.tables = before.tables
  world : after.world = before.world
  masterSocket : after.masterSocket = before.masterSocket
  pollFds : after.pollFds = before.pollFds
  removedPollFds : after.removedPollFds = before.removedPollFds
  fdToClient : after.fdToClient = before.fdToClient
  clients : after.clients = before.clients
  nextClient : after.nextClient = before.nextClient
  others : ∀ other, other ≠ client → after.heap other = before.heap other
  own : ∃ rxBuffer, after.heap client =
    (before.heap client).map fun record => { record with rxBuffer := rxBuffer }

/-- In every state: a frame that is answered with MALFORMED_PACKET,
UNKNOWN_COMMAND or ACCESS_DENIED makes no call on a bus, a device or a plugin,
leaves the world, the tables, the device list of its client and all other
clients as they are, and asks for the disconnect.  In every run that goes on
from there nothing is received, handled or sent for the connection any more,
and its record is gone when a pass ends. -/
theorem rejected_requests_ineffective (sys : Sys) (before : HwioServer World)
    {client : ClientPtr} {record : ClientInfo} (live : before.heap client = some record) :
    let header := HwioPacketHeader.at record.rxBuffer.buffer record.rxBuffer.currPtr
    let request := (before.session record).request
    let answer := handleMsg before.tables header request
    let handled := handleFrame before.tables sys client (before.session record)
    let after := before.putSession client handled.2
    Rejected answer →
      (∃ tx, answer = (.ok ⟨true, sizeofErrMsg⟩, { request with tx := tx })) ∧
      handled.1 = .ok true ∧
      OnlyBuffers client before after ∧
      (∃ sent, after.trace = before.trace ++
          .dispatched client record.rxBuffer.currPtr header request.rx ::
            (sent ++ [.handled client true]) ∧
        (∀ event ∈ sent, ∃ part, event = .sent client part) ∧
        sentIn sent <+: replyBytes answer) ∧
      ∀ (master : Fd) (tx : List Byte) (world : World) (last : HwioServer World) (later : List Event),
        Reached (prepared before.tables master tx world) last →
          last.trace = after.trace ++ later →
            last.heap client = none ∧
              ∀ event ∈ later, actor event = some client → event = .removed client := by
  intro header request answer handled after rejected
  obtain ⟨tx, same⟩ := rejected_eq rejected
  rcases handleFrame_eq before.tables sys client (before.session record) with
    ⟨stop, failed, _⟩ | ⟨res, sent, disconnect, ok, onlySent, front, decided, left⟩
  · change answer.1 = _ at failed
    rw [show answer = _ from same] at failed
    cases failed
  change answer.1 = _ at ok
  change sentIn sent <+: load answer.2.tx 0 res.txSize at front
  change disconnect = false ↔ res.disconnect = false ∧ sentIn sent = load answer.2.tx 0 res.txSize
    at decided
  change handled = (.ok disconnect, (before.session record).consumed client answer.2 _) at left
  rw [show answer = _ from same] at ok front decided left
  cases ok
  have ends : disconnect = true := by
    cases disconnect with
    | true => rfl
    | false => cases (decided.mp rfl).1
  subst ends
  have trace : after.trace = before.trace ++
      .dispatched client record.rxBuffer.currPtr header request.rx ::
        (sent ++ [.handled client true]) := by
    show handled.2.trace = _
    rw [left]
    simp only [Session.consumed, Session.afterMsg, List.append_assoc, List.cons_append]
    rfl
  refine ⟨⟨tx, same⟩, congrArg Prod.fst left, ?_, ⟨sent, trace, onlySent, ?_⟩, ?_⟩
  · exact {
      tables := rfl
      world := by
        show handled.2.world = _
        rw [left]
        rfl
      masterSocket := rfl
      pollFds := rfl
      removedPollFds := rfl
      fdToClient := rfl
      clients := rfl
      nextClient := rfl
      others other apart := Function.update_of_ne apart _ _
      own := by
        refine ⟨handled.2.client.rxBuffer, ?_⟩
        show Function.update before.heap client (some handled.2.client) client = _
        rw [Function.update_self, live, left]
        rfl }
  · rw [show answer = _ from same]
    exact front
  · intro master tx world last later reached goesOn
    have ended := reached.answers_ended.2
    have marked : .handled client true ∈ after.trace := by
      rw [trace]
      simp
    refine ⟨?_, fun event member acts => ?_⟩
    · cases gone : last.heap client with
      | none => rfl
      | some record =>
          cases ended.gone client record gone (by
            rw [goesOn]
            exact List.mem_append_left _ marked)
    · obtain ⟨early, rest, split⟩ := List.append_of_mem member
      refine ended.silent (after.trace ++ early) event rest ?_ client acts
        (List.mem_append_left _ marked)
      rw [goesOn, split, List.append_assoc]

/-- An unknown command with a PING behind it: the state in which both are
buffered, and the end of the run. -/
theorem unknown_command_ineffective :
    let bytes := [99, 0, 0, 4, 0, 0]
    let connected :=
      note (.visited 4) (poolClientMsgs (loneClient bytes) (prepared bareTables 3 [] ())).2
    let read := readFromSocket (loneClient bytes) 0 (connected.session ⟨0, 4, ⟨[], 0, 0⟩, []⟩)
    let last := loneRun bareTables [] () bytes
    read.1 = true ∧ read.2.client.rxBuffer.currLen = 6 ∧
      (handleFrame bareTables (loneClient bytes) 0 read.2).1 = .ok true ∧ last.heap 0 = none := by
  intro bytes connected read last
  let before := connected.putSession 0 read.2
  have live : before.heap 0 = some read.2.client := rfl
  have rejected := rejected_requests_ineffective (loneClient bytes) before live (by decide +kernel)
  refine ⟨by decide +kernel, by decide +kernel, rejected.2.1, ?_⟩
  exact (rejected.2.2.2.2 3 [] () last [.removed 0, .closed 4, .readFreed 0]
    (loneRun_reached bareTables [] () bytes) (by decide +kernel)).1

end HwioServer

end Hwio
