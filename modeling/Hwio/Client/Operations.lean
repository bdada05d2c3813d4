import Hwio.Server.Utils

/-!
Contract: what the calls of a client are made of, from `hwio_device_remote`,
`hwio_bus_remote` and `hwio_client_to_server_con`.

Owns the request that each call builds in `tx_buffer`, whether it waits for a
reply, and what it takes from the reply in `rx_buffer`.

Does not own the sending and receiving of bytes.
-/

namespace Hwio

open Library

/-! ## Calls -/

/-- A call of a client.  `retSize` is `sizeof(RET_T)`, and nothing for `void`;
a read or write carries the id of the device it is called on. -/
inductive Op where
  | ping
  | findDevices (spec : List HwioCompSpec)
  | read (id : UInt16) (offset : UInt32) (n : Nat)
  | write (id : UInt16) (offset : UInt32) (data : List Byte)
  | remoteCall (id : UInt16) (fnName : Text) (args : List Byte) (retSize : Option Nat)
  | remoteCallFast (id : UInt16) (fnId : UInt32) (args : List Byte) (retSize : Option Nat)
  | getRpcFnId (id : UInt16) (fnName : Text)
  | isRpcAvailable (id : UInt16) (fnName : Text)
deriving DecidableEq, Repr

/-- The assertion on the size of a transfer. -/
def Op.Asserted : Op → Prop
  | .read _ _ n => n ≤ 65535
  | .write _ _ data => data.length ≤ 65535
  | _ => True

instance (op : Op) : Decidable op.Asserted := by
  unfold Op.Asserted
  split <;> infer_instance

/-! ## Requests -/

def HwioVersion.bytes (version : HwioVersion) : List Byte :=
  u32Bytes version.major.toUInt32 ++
    (u32Bytes version.minor.toUInt32 ++ u32Bytes version.subminor.toUInt32)

/-- `copy_str_to_resp`: `strncpy` fills the whole field. -/
def copyStrToResp (src : Text) : List Byte := strncpy src maxNameLen

/-- `Dev_query_item` -/
def HwioCompSpec.queryItem (spec : HwioCompSpec) : List Byte :=
  copyStrToResp spec.name ++
    (copyStrToResp spec.vendor ++ (copyStrToResp spec.type ++ spec.version.bytes))

/-- `RdReq` -/
def rdReq (id : UInt16) (addr : UInt32) (size : Nat) : List Byte :=
  u16Bytes id ++ (u32Bytes addr ++ leBytes 2 size)

namespace Op

/-- `buff->header.command` -/
def command : Op → HwioCmd
  | .ping => .pingRequest
  | .findDevices _ => .query
  | .read _ _ _ => .read
  | .write _ _ _ => .write
  | .remoteCall _ _ _ _ => .remoteCall
  | .remoteCallFast _ _ _ _ => .remoteCallFast
  | .getRpcFnId _ _ | .isRpcAvailable _ _ => .getRemoteCallId

/-- `buff->body`: all that the call stores behind the header. -/
def fields : Op → List Byte
  | .ping => []
  | .findDevices spec => spec.flatMap HwioCompSpec.queryItem
  | .read id offset n => rdReq id offset n
  | .write id offset data => rdReq id offset data.length ++ data
  | .remoteCall id fnName args _ => u16Bytes id ++ (strncpy fnName maxNameLen ++ args)
  | .remoteCallFast id fnId args _ => u16Bytes id ++ (u32Bytes fnId ++ args)
  | .getRpcFnId id fnName | .isRpcAvailable id fnName =>
      u16Bytes id ++ strncpy fnName maxNameLen

/-- `buff->header.body_len`, before it is converted to `uint16_t`; a call by
name counts one byte of `RemoteCall` less than it has. -/
def bodyLen : Op → Nat
  | .ping => 0
  | .findDevices spec => sizeofDevQueryItem * spec.length
  | .read _ _ _ => sizeofRdReq
  | .write _ _ data => sizeofWrReq + data.length
  | .remoteCall _ _ args _ => sizeofRemoteCall - 1 + args.length
  | .remoteCallFast _ _ args _ => sizeofRemoteCallFast + args.length
  | .getRpcFnId _ _ | .isRpcAvailable _ _ => sizeofGetRemoteCallId

def header (op : Op) : HwioPacketHeader := ⟨op.command.code, UInt16.ofNat op.bodyLen⟩

/-- The request in `tx_buffer`; its fields lie next to each other from the
start of the buffer on. -/
def build (op : Op) (tx : List Byte) : List Byte := store tx 0 (op.header.bytes ++ op.fields)

/-- Whether the call goes on with `rx_pckt` when the request is sent. -/
def waits : Op → Bool
  | .write _ _ _ => false
  | .remoteCall _ _ _ retSize | .remoteCallFast _ _ _ retSize => retSize.isSome
  | _ => true

/-- The request has its place in `tx_buffer`. -/
def Fits (op : Op) : Prop := sizeofHeader + op.fields.length ≤ bufferSize

instance (op : Op) : Decidable op.Fits := inferInstanceAs (Decidable (_ ≤ _))

end Op

/-! ## Replies -/

/-- `hwio_device_remote`, the proxy of a device. -/
structure HwioDeviceRemote where
  spec : List HwioCompSpec
  id : UInt16
deriving DecidableEq, Repr

/-- What a call returns.  Proxies are named by their places in `seen_devices`. -/
inductive Result where
  | pinged (code : Int)
  | devices (found : List Nat)
  | bytes (data : List Byte)
  | fnId (fnId : Int32)
  | available (available : Bool)
deriving DecidableEq, Repr

/-- `operator<<` of a signed number -/
def signedDecimal (value : Int) : Text :=
  if value < 0 then text "-" ++ decimal value.natAbs else decimal value.natAbs

/-- `hwio_device_remote::assert_response`; `none` is its return. -/
def assertResponse (h : HwioPacketHeader) (rxBuffer : List Byte) (expected : HwioCmd) (msg : Text) :
    Option Exn :=
  if h.command ≠ expected.code then
    let err :=
      if h.command = HwioCmd.msg.code then
        signedDecimal (loadU32 rxBuffer 0).toInt32.toInt ++ text ": " ++ cstr (rxBuffer.drop 4)
      else []
    some ⟨true, msg ++ decimal h.command.toNat ++ err⟩
  else none

/-- The reply of a device request, when it has the expected command. -/
def deviceReply (h : HwioPacketHeader) (rxBuffer : List Byte) (expected : HwioCmd)
    (result : Result) : Except Exn Result :=
  match assertResponse h rxBuffer expected
    (text "Wrong response from server on read request ") with
  | some exn => .error exn
  | none => .ok result

/-- `hwio_bus_remote::hwio_dev_from_id`: the place of the proxy, and
`seen_devices` with it. -/
def hwioDevFromId (spec : List HwioCompSpec) (id : UInt16) (seenDevices : List HwioDeviceRemote) :
    Nat × List HwioDeviceRemote :=
  match seenDevices.findIdx? (fun d => d.id = id) with
  | some place => (place, seenDevices)
  | none => (seenDevices.length, seenDevices ++ [⟨spec, id⟩])

/-- The loop of `find_devices` over the ids of the reply. -/
def devicesFromIds (spec : List HwioCompSpec) : List UInt16 → List HwioDeviceRemote →
    List Nat × List HwioDeviceRemote
  | [], seenDevices => ([], seenDevices)
  | id :: ids, seenDevices =>
      let (dev, seenDevices) := hwioDevFromId spec id seenDevices
      let (res, seenDevices) := devicesFromIds spec ids seenDevices
      (dev :: res, seenDevices)

/-- `items->ids` of a reply -/
def replyIds (h : HwioPacketHeader) (rxBuffer : List Byte) : List UInt16 :=
  (List.range (h.bodyLen.toNat / sizeofDevId)).map fun i => loadU16 rxBuffer (i * sizeofDevId)

/-- `-ENAVAIL` -/
def enavail : Int := -119

/-- What a call makes of its reply, and `seen_devices` after it. -/
def Op.finish (op : Op) (h : HwioPacketHeader) (rxBuffer : List Byte)
    (seenDevices : List HwioDeviceRemote) : Except Exn Result × List HwioDeviceRemote :=
  match op with
  | .ping =>
      if h.bodyLen ≠ 0 ∨ h.command ≠ HwioCmd.pingReply.code then
        (.ok (.pinged enavail), seenDevices)
      else (.ok (.pinged 0), seenDevices)
  | .findDevices spec =>
      if h.command ≠ HwioCmd.queryResp.code then
        (.error ⟨true, text "[HWIO, remote bus] Wrong response on device query:" ++
          decimal h.command.toNat⟩, seenDevices)
      else
        let (res, seenDevices) := devicesFromIds spec (replyIds h rxBuffer) seenDevices
        (.ok (.devices res), seenDevices)
  | .read _ _ n => (deviceReply h rxBuffer .readResp (.bytes (load rxBuffer 0 n)), seenDevices)
  | .write _ _ _ => (.ok (.bytes []), seenDevices)
  | .remoteCall _ _ _ retSize | .remoteCallFast _ _ _ retSize =>
      (deviceReply h rxBuffer .remoteCallRet (.bytes (load rxBuffer 0 (retSize.getD 0))),
        seenDevices)
  | .getRpcFnId _ _ =>
      (deviceReply h rxBuffer .getRemoteCallIdResp (.fnId (loadU32 rxBuffer 1).toInt32),
        seenDevices)
  | .isRpcAvailable _ _ =>
      -- `fn_id` is unsigned, so that the second half of the condition always holds
      (deviceReply h rxBuffer .getRemoteCallIdResp
        (.available (rxBuffer.getD 0 0 ≠ 0 && decide (0 ≤ loadU32 rxBuffer 1))), seenDevices)

/-! ## The bytes of a request -/

namespace Op

/-- The frame of a request: what `tx_pckt` sends. -/
def frame (op : Op) : Frame where
  command := op.command.code
  body := (op.fields.take op.bodyLen).take 65535
  fits := by
    rw [List.length_take]
    omega

theorem queryItem_length (spec : HwioCompSpec) : spec.queryItem.length = sizeofDevQueryItem := by
  simp only [HwioCompSpec.queryItem, HwioVersion.bytes, copyStrToResp, List.length_append,
    strncpy_length, u32Bytes_length]
  rfl

theorem rdReq_length (id : UInt16) (addr : UInt32) (size : Nat) :
    (rdReq id addr size).length = sizeofRdReq := by
  simp only [rdReq, List.length_append, u16Bytes_length, u32Bytes_length, leBytes_length]
  rfl

/-- The header counts no more than the fields. -/
theorem bodyLen_le (op : Op) : op.bodyLen ≤ op.fields.length := by
  cases op with
  | ping => exact Nat.le_refl _
  | findDevices spec =>
      induction spec with
      | nil => exact Nat.le_refl _
      | cons first rest before =>
          simp only [bodyLen, fields, List.length_cons, List.flatMap_cons, List.length_append,
            queryItem_length] at before ⊢
          rw [Nat.mul_succ]
          omega
  | read id offset n => exact Nat.le_of_eq (rdReq_length id offset n).symm
  | write id offset data =>
      rw [bodyLen, fields, List.length_append, rdReq_length]
      exact Nat.le_refl _
  | remoteCall id fnName args retSize =>
      simp only [bodyLen, fields, List.length_append, u16Bytes_length, strncpy_length,
        sizeofRemoteCall]
      omega
  | remoteCallFast id fnId args retSize =>
      simp only [bodyLen, fields, List.length_append, u16Bytes_length, u32Bytes_length,
        sizeofRemoteCallFast]
      omega
  | getRpcFnId id fnName =>
      simp only [bodyLen, fields, List.length_append, u16Bytes_length, strncpy_length]
      exact Nat.le_refl _
  | isRpcAvailable id fnName =>
      simp only [bodyLen, fields, List.length_append, u16Bytes_length, strncpy_length]
      exact Nat.le_refl _

/-- The server dispatches a request by the command of its call. -/
theorem ofCode_frame (op : Op) : HwioCmd.ofCode op.frame.header.command = some op.command :=
  HwioCmd.ofCode_code op.command

variable {op : Op} (fits : op.Fits)

include fits

theorem bodyLen_lt : op.bodyLen < 65536 := by
  have counted := op.bodyLen_le
  unfold Fits sizeofHeader bufferSize at fits
  omega

theorem frame_body : op.frame.body = op.fields.take op.bodyLen := by
  have small := bodyLen_lt fits
  apply List.take_of_length_le
  rw [List.length_take]
  omega

theorem frame_body_length : op.frame.body.length = op.bodyLen := by
  rw [frame_body fits, List.length_take, Nat.min_eq_left op.bodyLen_le]

theorem frame_header : op.frame.header = op.header := by
  rw [Frame.header, frame_body_length fits]
  rfl

/-- `tx_pckt` sends the frame of the request, whatever was in the buffer. -/
theorem load_build (tx : List Byte) :
    load (op.build tx) 0 (sizeofHeader + op.bodyLen) = op.frame.bytes := by
  have stored := load_store_same tx 0 (op.header.bytes ++ op.fields)
  have short : sizeofHeader + op.bodyLen ≤ (op.header.bytes ++ op.fields).length := by
    rw [List.length_append, HwioPacketHeader.bytes_length]
    exact Nat.add_le_add_left op.bodyLen_le _
  rw [build, ← load_take _ 0 short, stored, ← HwioPacketHeader.bytes_length op.header,
    List.take_length_add_append, Frame.bytes, frame_header fits, frame_body fits]

/-- The header in the buffer counts the whole request. -/
theorem size_build (tx : List Byte) :
    sizeofHeader + (HwioPacketHeader.at (op.build tx) 0).bodyLen.toNat = op.frame.bytes.length := by
  have whole := load_build fits tx
  have read : HwioPacketHeader.at (op.build tx) 0 = op.header := by
    apply HwioPacketHeader.at_of_load
    rw [← load_take _ 0 (Nat.le_add_right sizeofHeader op.bodyLen), whole, Frame.bytes,
      frame_header fits, ← HwioPacketHeader.bytes_length op.header, List.take_left]
  have counted : op.header.bodyLen.toNat = op.bodyLen :=
    UInt16.toNat_ofNat_of_lt' (bodyLen_lt fits)
  rw [read, counted, Frame.bytes_length, frame_body_length fits]

end Op

end Hwio
