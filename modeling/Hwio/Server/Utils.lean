import Hwio.Server.State

/-!
Contract: `hwio_server_utils.cpp` and the framing of a reply in `tx_buffer`.

Owns `send_err`, `client_get_dev` and the stores of the reply header.
-/

namespace Hwio

open Library

/-! ## The reply under construction -/

/-- `resp->header.command = …` -/
def setCommand (tx : List Byte) (cmd : HwioCmd) : List Byte := store tx 0 [cmd.code]

/-- `resp->header.body_len = …`, converted to `uint16_t`. -/
def setBodyLen (tx : List Byte) (len : Nat) : List Byte := store tx 1 (leBytes 2 len)

/-- The header as `rx_pckt` reads it from the front of the reply. -/
def replyHeader (tx : List Byte) : HwioPacketHeader := HwioPacketHeader.at tx 0

@[simp] theorem replyHeader_setCommand (tx : List Byte) (cmd : HwioCmd) :
    replyHeader (setCommand tx cmd) = ⟨cmd.code, (replyHeader tx).bodyLen⟩ := by
  have bodyLen : loadU16 (store tx 0 [cmd.code]) 1 = loadU16 tx 1 := by
    rw [loadU16, load_store_apart tx (Or.inr (by simp))]
    rfl
  unfold replyHeader setCommand HwioPacketHeader.at
  rw [store_getD, if_pos (by simp), Nat.zero_add, bodyLen]
  rfl

@[simp] theorem replyHeader_setBodyLen (tx : List Byte) (len : Nat) :
    replyHeader (setBodyLen tx len) = ⟨(replyHeader tx).command, UInt16.ofNat len⟩ := by
  have loaded : loadU16 (store tx 1 (leBytes 2 len)) 1 = UInt16.ofNat len := by
    have same := load_store_same tx 1 (leBytes 2 len)
    rw [leBytes_length] at same
    rw [loadU16, same, leNat_leBytes]
    exact UInt16.toNat_inj.mp (by simp)
  unfold replyHeader setBodyLen HwioPacketHeader.at
  rw [store_getD, if_neg (by simp), Nat.zero_add, loaded]

theorem command_replied (tx : List Byte) (cmd : HwioCmd) (size : Nat) :
    (replyHeader (setBodyLen (setCommand tx cmd) size)).command = cmd.code := by
  rw [replyHeader_setBodyLen, replyHeader_setCommand]

/-- Stores behind the header do not change it. -/
theorem replyHeader_store (tx : List Byte) {offset : Nat} (bytes : List Byte)
    (behind : sizeofHeader ≤ offset) : replyHeader (store tx offset bytes) = replyHeader tx := by
  unfold sizeofHeader at behind
  have bodyLen : loadU16 (store tx offset bytes) 1 = loadU16 tx 1 := by
    rw [loadU16, load_store_apart tx (Or.inl (by omega))]
    rfl
  unfold replyHeader HwioPacketHeader.at
  rw [store_getD, if_neg (by omega), Nat.zero_add, bodyLen]

/-- The header of a reply does not depend on what it overwrites. -/
theorem load_header (tx : List Byte) (cmd : HwioCmd) (size : Nat) :
    load (setBodyLen (setCommand tx cmd) size) 0 sizeofHeader =
      (HwioPacketHeader.mk cmd.code (UInt16.ofNat size)).bytes := by
  rw [← HwioPacketHeader.bytes_at]
  congr 1
  exact (replyHeader_setBodyLen _ _).trans (by rw [replyHeader_setCommand])

/-- A header and the body stored behind it are all that is sent of them. -/
theorem load_reply (tx : List Byte) (cmd : HwioCmd) (size : Nat) (body : List Byte) :
    load (store (setBodyLen (setCommand tx cmd) size) sizeofHeader body) 0
        (sizeofHeader + body.length) =
      (HwioPacketHeader.mk cmd.code (UInt16.ofNat size)).bytes ++ body := by
  rw [load_add, load_store_apart _ (Or.inl (Nat.le_of_eq (Nat.zero_add _))), load_header,
    Nat.zero_add, load_store_same]

theorem setCommand_length (tx : List Byte) (cmd : HwioCmd) :
    (setCommand tx cmd).length = max tx.length 1 := by
  rw [setCommand, store_length, List.length_singleton]

theorem setBodyLen_length (tx : List Byte) (len : Nat) :
    (setBodyLen tx len).length = max tx.length 3 := by
  rw [setBodyLen, store_length, leBytes_length]

/-! ## `send_err` -/

/-- The length that `strlen` finds after `strncpy` put a message into the
frame: the message is not terminated when it has `MAX_ERR_MSG_LEN` characters. -/
def errMsgLen (tx : List Byte) (msg : Text) : Nat :=
  (cstr ((store tx (sizeofHeader + 4) (strncpy msg maxErrMsgLen)).drop (sizeofHeader + 4))).length

/-- `HwioServer::send_err` -/
def sendErrInt (errCode : UInt32) (msg : Text) (tx : List Byte) : PProcRes × List Byte :=
  let tx := store tx (sizeofHeader + 4) (strncpy msg maxErrMsgLen)
  let tx := store tx sizeofHeader (u32Bytes errCode)
  let tx := setCommand tx .msg
  let tx := setBodyLen tx (4 + (cstr (tx.drop (sizeofHeader + 4))).length)
  (⟨true, sizeofErrMsg⟩, tx)

/-- `HwioServer::send_err` of the codes that the handlers give it. -/
def sendErr (errCode : HwioServerError) (msg : Text) (tx : List Byte) : PProcRes × List Byte :=
  sendErrInt errCode.code msg tx

private theorem errMsg_memory (tx : List Byte) (msg : Text) :
    (store tx (sizeofHeader + 4) (strncpy msg maxErrMsgLen)).drop (sizeofHeader + 4) =
      strncpy (cstr msg) maxErrMsgLen ++ tx.drop (sizeofHeader + sizeofErrMsg) := by
  rw [store_drop_same, strncpy_length, strncpy_cstr]
  rfl

/-- A message shorter than the field is found with its own length. -/
theorem errMsgLen_of_short (tx : List Byte) {msg : Text}
    (short : (cstr msg).length < maxErrMsgLen) : errMsgLen tx msg = (cstr msg).length := by
  rw [errMsgLen, errMsg_memory, cstr_strncpy (zero_not_mem_cstr msg) short]

/-- A message that fills the field is found to go on into the memory behind it. -/
theorem errMsgLen_of_long (tx : List Byte) {msg : Text}
    (long : maxErrMsgLen ≤ (cstr msg).length) :
    errMsgLen tx msg = maxErrMsgLen + (cstr (tx.drop (sizeofHeader + sizeofErrMsg))).length := by
  have free : 0 ∉ (cstr msg).take maxErrMsgLen :=
    fun member => zero_not_mem_cstr msg (List.mem_of_mem_take member)
  rw [errMsgLen, errMsg_memory, strncpy_of_ge (zero_not_mem_cstr msg) long,
    cstr_append_of_not_mem free, List.length_append, List.length_take, Nat.min_eq_left long]

@[simp] theorem sendErr_res (errCode : HwioServerError) (msg : Text) (tx : List Byte) :
    (sendErr errCode msg tx).1 = ⟨true, sizeofErrMsg⟩ := rfl

theorem replyHeader_sendErrInt (errCode : UInt32) (msg : Text) (tx : List Byte) :
    replyHeader (sendErrInt errCode msg tx).2 =
      ⟨HwioCmd.msg.code, UInt16.ofNat (4 + errMsgLen tx msg)⟩ := by
  have kept : ∀ memory : List Byte,
      (setCommand (store memory sizeofHeader (u32Bytes errCode)) .msg).drop
        (sizeofHeader + 4) = memory.drop (sizeofHeader + 4) := by
    intro memory
    rw [setCommand, store_drop_after _ (by simp [sizeofHeader]),
      store_drop_after _ (by simp [sizeofHeader])]
  simp only [sendErrInt, kept, errMsgLen, replyHeader_setBodyLen, replyHeader_setCommand]

/-- The header of an error frame counts the code and the characters found. -/
theorem replyHeader_sendErr (errCode : HwioServerError) (msg : Text) (tx : List Byte) :
    replyHeader (sendErr errCode msg tx).2 =
      ⟨HwioCmd.msg.code, UInt16.ofNat (4 + errMsgLen tx msg)⟩ :=
  replyHeader_sendErrInt errCode.code msg tx

/-- An error frame is written over the header and the whole message field. -/
theorem sendErr_length (errCode : HwioServerError) (msg : Text) (tx : List Byte) :
    (sendErr errCode msg tx).2.length = max tx.length (sizeofHeader + sizeofErrMsg) := by
  simp only [sendErr, sendErrInt, setBodyLen_length, setCommand_length, store_length, u32Bytes_length,
    strncpy_length, sizeofHeader, sizeofErrMsg, maxErrMsgLen]
  omega

/-- The bytes that `parse_msgs` sends for an error: header, code, and the
message field but for its last bytes. -/
theorem sendErrInt_sent (errCode : UInt32) (msg : Text) (tx : List Byte) :
    load (sendErrInt errCode msg tx).2 0 sizeofErrMsg =
      (HwioPacketHeader.mk HwioCmd.msg.code (UInt16.ofNat (4 + errMsgLen tx msg))).bytes ++
        (u32Bytes errCode ++
          (strncpy msg maxErrMsgLen).take (maxErrMsgLen - sizeofHeader)) := by
  have header : load (sendErrInt errCode msg tx).2 0 sizeofHeader =
      (HwioPacketHeader.mk HwioCmd.msg.code (UInt16.ofNat (4 + errMsgLen tx msg))).bytes := by
    rw [← replyHeader_sendErrInt errCode msg tx]
    exact (HwioPacketHeader.bytes_at _ 0).symm
  have code : load (sendErrInt errCode msg tx).2 sizeofHeader 4 = u32Bytes errCode := by
    have same := load_store_same (store tx (sizeofHeader + 4) (strncpy msg maxErrMsgLen))
      sizeofHeader (u32Bytes errCode)
    rw [u32Bytes_length] at same
    simp only [sendErrInt, setBodyLen, setCommand]
    rw [load_store_apart _ (Or.inr (by simp [sizeofHeader])),
      load_store_apart _ (Or.inr (by simp [sizeofHeader])), same]
  have message : load (sendErrInt errCode msg tx).2 (sizeofHeader + 4) (maxErrMsgLen - sizeofHeader) =
      (strncpy msg maxErrMsgLen).take (maxErrMsgLen - sizeofHeader) := by
    simp only [sendErrInt, setBodyLen, setCommand]
    rw [load_store_apart _ (Or.inr (by simp [sizeofHeader])),
      load_store_apart _ (Or.inr (by simp [sizeofHeader])),
      load_store_apart _ (Or.inr (by simp [sizeofHeader])),
      load_eq_take_drop (by
        rw [store_length, strncpy_length]
        simp only [maxErrMsgLen, sizeofHeader]
        omega), store_drop_same, List.take_append_of_le_length (by
        rw [strncpy_length]
        simp only [maxErrMsgLen, sizeofHeader]
        omega)]
  have split : sizeofErrMsg = sizeofHeader + (4 + (maxErrMsgLen - sizeofHeader)) := rfl
  rw [split, load_add, load_add, header, Nat.zero_add, code, message]

theorem sendErr_sent (errCode : HwioServerError) (msg : Text) (tx : List Byte) :
    load (sendErr errCode msg tx).2 0 sizeofErrMsg =
      (HwioPacketHeader.mk HwioCmd.msg.code (UInt16.ofNat (4 + errMsgLen tx msg))).bytes ++
        (u32Bytes errCode.code ++
          (strncpy msg maxErrMsgLen).take (maxErrMsgLen - sizeofHeader)) :=
  sendErrInt_sent errCode.code msg tx

/-- `return send_err(…)` -/
def Ctx.sendErr {World : Type} (ctx : Ctx World) (errCode : HwioServerError) (msg : Text) :
    Handled World :=
  let (res, tx) := Hwio.sendErr errCode msg ctx.tx
  (.ok res, { ctx with tx := tx })

/-! ## `client_get_dev` -/

/-- `HwioServer::client_get_dev`; `none` is the null pointer. -/
def clientGetDev (devices : List (Option DevPtr)) (devId : UInt16) : Option DevPtr :=
  if below : devId.toNat < devices.length then devices[devId.toNat] else none

theorem clientGetDev_eq_some {devices : List (Option DevPtr)} {devId : UInt16} {dev : DevPtr} :
    clientGetDev devices devId = some dev ↔ devices[devId.toNat]? = some (some dev) := by
  unfold clientGetDev
  split
  case isTrue below => rw [List.getElem?_eq_getElem below, Option.some.injEq]
  case isFalse beyond => simp [List.getElem?_eq_none (Nat.le_of_not_lt beyond)]

theorem clientGetDev_mem {devices : List (Option DevPtr)} {devId : UInt16} {dev : DevPtr}
    (resolved : clientGetDev devices devId = some dev) : some dev ∈ devices :=
  List.mem_of_getElem? (clientGetDev_eq_some.mp resolved)

end Hwio
