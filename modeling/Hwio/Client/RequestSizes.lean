import Hwio.Client.RemoteCalls
import Hwio.Server.DeviceIds
import Hwio.Server.ReplyBounds

/-!
Contract: the sizes of the requests of a client and of the replies it asks for.

Owns when the request of a read, a write or a query has its place in
`tx_buffer`, its length in the header, and its reply a place in `rx_buffer`.

Does not own what the server stores into a reply besides its length.
-/

namespace Hwio

open Library

variable {World : Type}

namespace Op

/-! ## Bulk calls -/

/-- The calls whose size is up to the caller. -/
def isBulk : Op → Bool
  | .findDevices _ | .read _ _ _ | .write _ _ _ => true
  | _ => false

/-- The `body_len` of the reply that a call asks for, when the server finds
`found` devices; a write asks for none. -/
def replyBodyLen (found : Nat) : Op → Nat
  | .findDevices _ => sizeofDevId * found % 65536
  | .read _ _ n => n % 65536
  | _ => 0

/-- The command of the reply that a bulk call waits for. -/
def replyCommand : Op → Option HwioCmd
  | .findDevices _ => some .queryResp
  | .read _ _ _ => some .readResp
  | _ => none

/-- A request lies inside `tx_buffer` with its length in the header, and
`rx_bytes` accepts the length of its reply. -/
structure SizesFit (op : Op) (tx : List Byte) (found : Nat) : Prop where
  inside : (op.build tx).length = tx.length
  counted : (HwioPacketHeader.at (op.build tx) 0).bodyLen.toNat = op.fields.length
  reply : op.replyBodyLen found ≤ bufferSize

/-- A call refuses by its assertion, or all of its sizes fit. -/
def RefusesOrFits (op : Op) (tx : List Byte) (found : Nat) : Prop :=
  ¬ op.Asserted ∨ op.SizesFit tx found

/-- The sizes for which it does. -/
def SmallEnough (found : Nat) : Op → Prop
  | .findDevices spec => spec.length ≤ 5 ∧ sizeofDevId * found % 65536 ≤ bufferSize
  | .read _ _ n => n ≤ bufferSize ∨ 65535 < n
  | .write _ _ data =>
      sizeofHeader + sizeofWrReq + data.length ≤ bufferSize ∨ 65535 < data.length
  | _ => True

/-! ## The request in the buffer -/

theorem header_build (op : Op) (tx : List Byte) : HwioPacketHeader.at (op.build tx) 0 = op.header := by
  apply HwioPacketHeader.at_of_load
  have stored := load_store_same tx 0 (op.header.bytes ++ op.fields)
  have short : sizeofHeader ≤ (op.header.bytes ++ op.fields).length := by
    rw [List.length_append, HwioPacketHeader.bytes_length]
    exact Nat.le_add_right _ _
  rw [build, ← load_take _ 0 short, stored, ← HwioPacketHeader.bytes_length op.header,
    List.take_left]

theorem build_inside_iff (op : Op) {tx : List Byte} (whole : tx.length = bufferSize) :
    (op.build tx).length = tx.length ↔ op.Fits := by
  rw [build, store_length, Fits, List.length_append, HwioPacketHeader.bytes_length, whole]
  omega

/-- The fields of a bulk call are counted whole, up to the sixteen bits. -/
theorem bulk_bodyLen {op : Op} (bulk : op.isBulk = true) : op.bodyLen = op.fields.length := by
  cases op with
  | findDevices spec =>
      induction spec with
      | nil => rfl
      | cons first rest before =>
          have rest := before rfl
          simp only [bodyLen, fields, List.length_cons, List.flatMap_cons, List.length_append,
            queryItem_length] at rest ⊢
          rw [Nat.mul_succ]
          omega
  | read id offset n => exact (rdReq_length id offset n).symm
  | write id offset data =>
      rw [bodyLen, fields, List.length_append, rdReq_length]
      rfl
  | ping => cases bulk
  | remoteCall id fnName args retSize => cases bulk
  | remoteCallFast id fnId args retSize => cases bulk
  | getRpcFnId id fnName => cases bulk
  | isRpcAvailable id fnName => cases bulk

theorem sizesFit_iff {op : Op} (bulk : op.isBulk = true) {tx : List Byte}
    (whole : tx.length = bufferSize) (found : Nat) :
    op.SizesFit tx found ↔ op.Fits ∧ op.replyBodyLen found ≤ bufferSize := by
  constructor
  · intro fit
    exact ⟨(op.build_inside_iff whole).mp fit.inside, fit.reply⟩
  · intro ⟨fits, reply⟩
    refine { inside := (op.build_inside_iff whole).mpr fits, counted := ?_, reply := reply }
    rw [header_build, ← bulk_bodyLen bulk]
    exact UInt16.toNat_ofNat_of_lt' (bodyLen_lt fits)

end Op

/-! ## The replies of the server -/

/-- The parts of a `RdReq` at the start of a memory. -/
theorem rdReq_parts (id : UInt16) (addr : UInt32) (size : Nat) (behind : List Byte) :
    loadU16 (rdReq id addr size ++ behind) 0 = id ∧
      loadU32 (rdReq id addr size ++ behind) 2 = addr ∧
      (loadU16 (rdReq id addr size ++ behind) 6).toNat = size % 65536 ∧
      ∀ count, load (rdReq id addr size ++ behind) sizeofRdReq count = load behind 0 count := by
  have split : rdReq id addr size ++ behind =
      u16Bytes id ++ (u32Bytes addr ++ (leBytes 2 size ++ behind)) := by
    rw [rdReq, List.append_assoc, List.append_assoc]
  have afterId : ∀ offset count, load (rdReq id addr size ++ behind) (2 + offset) count =
      load (u32Bytes addr ++ (leBytes 2 size ++ behind)) offset count := by
    intro offset count
    rw [split, ← u16Bytes_length id, load_append_right]
  have afterAddr : ∀ offset count, load (rdReq id addr size ++ behind) (6 + offset) count =
      load (leBytes 2 size ++ behind) offset count := by
    intro offset count
    rw [show 6 + offset = 2 + (4 + offset) by omega, afterId, ← u32Bytes_length addr,
      load_append_right]
  refine ⟨?_, ?_, ?_, ?_⟩
  · rw [split]
    exact loadU16_front id _
  · apply loadU32_of_load
    rw [show 2 = 2 + 0 from rfl, afterId, load_append_left _ (by rw [u32Bytes_length])]
    exact load_whole (u32Bytes addr)
  · rw [loadU16_toNat, show 6 = 6 + 0 from rfl, afterAddr,
      load_append_left _ (by rw [leBytes_length])]
    have whole := load_whole (leBytes 2 size)
    rw [leBytes_length] at whole
    rewrite [whole, leNat_leBytes]
    rfl
  · intro count
    rw [← Op.rdReq_length id addr size, ← Nat.add_zero (rdReq id addr size).length,
      load_append_right]

theorem read_frame_body (id : UInt16) (offset : UInt32) (n : Nat) :
    (Op.read id offset n).frame.body = rdReq id offset n := by
  have fits : (Op.read id offset n).Fits := by
    rw [Op.Fits, Op.fields, Op.rdReq_length]
    decide
  rw [Op.frame_body fits]
  exact List.take_of_length_le (Nat.le_of_eq (Op.rdReq_length id offset n))

/-- A reply to a read counts the bytes that the read asks for. -/
theorem readResp_bodyLen {tables : Tables World} {ctx : Ctx World} (id : UInt16)
    (offset : UInt32) (n : Nat) (behind : List Byte) {res : PProcRes}
    (ok : ((Op.read id offset n).handled tables ctx behind).1 = .ok res)
    (reply : (replyHeader ((Op.read id offset n).handled tables ctx behind).2.tx).command =
      HwioCmd.readResp.code) :
    (replyHeader ((Op.read id offset n).handled tables ctx behind).2.tx).bodyLen.toNat =
      (Op.read id offset n).replyBodyLen 0 := by
  have refused : ∀ (ctx : Ctx World) code message,
      (replyHeader (ctx.sendErr code message).2.tx).command ≠ HwioCmd.readResp.code := by
    intro ctx code message
    show (replyHeader (sendErr code message ctx.tx).2).command ≠ _
    rw [replyHeader_sendErr]
    exact show HwioCmd.msg.code ≠ HwioCmd.readResp.code by decide
  have ⟨_, _, size, _⟩ := rdReq_parts id offset n behind
  have handled : (Op.read id offset n).handled tables ctx behind =
      handleRead tables (Op.read id offset n).frame.header
        (ctx.reading (rdReq id offset n ++ behind)) := by
    rw [Op.handled, handleMsg, Op.ofCode_frame, read_frame_body]
    rfl
  rw [handled] at ok reply ⊢
  unfold handleRead at ok reply ⊢
  split at reply
  · exact absurd reply (refused _ _ _)
  next sized =>
  rw [if_neg sized] at ok ⊢
  simp only at ok reply ⊢
  split at reply
  · exact absurd reply (refused _ _ _)
  next dev resolved =>
  simp only [resolved] at ok ⊢
  split at reply
  next thrown =>
    show (replyHeader (storedReply _ .readResp (loadU16 (rdReq id offset n ++ behind) 6).toNat
      _)).bodyLen.toNat = _
    rw [replyHeader_storedReply, size]
    exact UInt16.toNat_ofNat_of_lt' (Nat.mod_lt _ (by decide))
  next exn thrown =>
    split at reply
    · exact absurd reply (refused _ _ _)
    next other =>
      simp only [thrown, if_neg other] at ok
      cases ok

namespace Op

/-- The server counts in its reply what `replyBodyLen` says. -/
theorem replied_bodyLen {op : Op} {tables : Tables World} {ctx : Ctx World}
    (fresh : ctx.calls = []) (behind : List Byte) {res : PProcRes}
    (ok : (op.handled tables ctx behind).1 = .ok res) {cmd : HwioCmd}
    (awaited : op.replyCommand = some cmd)
    (reply : (replyHeader (op.handled tables ctx behind).2.tx).command = cmd.code) :
    (replyHeader (op.handled tables ctx behind).2.tx).bodyLen.toNat =
      op.replyBodyLen (foundIn (op.handled tables ctx behind).2.calls).length := by
  cases op with
  | findDevices spec =>
      obtain rfl := Option.some.inj awaited
      exact queryResp_bodyLen (Op.ofCode_frame (.findDevices spec)) fresh ok reply
  | read id offset n =>
      obtain rfl := Option.some.inj awaited
      exact readResp_bodyLen id offset n behind ok reply
  | ping | write | remoteCall | remoteCallFast | getRpcFnId | isRpcAvailable => cases awaited

/-- The calls of a client fit their buffers just when a read is of no more than
`BUFFER_SIZE` bytes, a write leaves room for its header, and a query has at most
five items and finds no more devices than the buffer has ids; and the replies of
the server have the lengths that are meant. -/
theorem request_sizes_fit_iff {op : Op} (bulk : op.isBulk = true) {tx : List Byte}
    (whole : tx.length = bufferSize) (found : Nat) :
    (op.RefusesOrFits tx found ↔ op.SmallEnough found) ∧
      ∀ (tables : Tables World) (ctx : Ctx World) (behind : List Byte) (res : PProcRes)
        (cmd : HwioCmd), ctx.calls = [] → (op.handled tables ctx behind).1 = .ok res →
        op.replyCommand = some cmd →
        (replyHeader (op.handled tables ctx behind).2.tx).command = cmd.code →
          (replyHeader (op.handled tables ctx behind).2.tx).bodyLen.toNat =
            op.replyBodyLen (foundIn (op.handled tables ctx behind).2.calls).length := by
  refine ⟨?_, fun tables ctx behind res cmd fresh ok awaited reply =>
    replied_bodyLen fresh behind ok awaited reply⟩
  rw [RefusesOrFits, sizesFit_iff bulk whole, Fits, ← bulk_bodyLen bulk]
  cases op with
  | findDevices spec =>
      simp only [Asserted, not_true_eq_false, false_or, SmallEnough, bodyLen, replyBodyLen,
        sizeofDevQueryItem, sizeofHeader, bufferSize, sizeofDevId, maxNameLen]
      omega
  | read id offset n =>
      simp only [Asserted, SmallEnough, bodyLen, replyBodyLen, sizeofRdReq, sizeofHeader, bufferSize]
      omega
  | write id offset data =>
      simp only [Asserted, SmallEnough, bodyLen, replyBodyLen, sizeofWrReq, sizeofHeader,
        bufferSize]
      omega
  | ping => cases bulk
  | remoteCall id fnName args retSize => cases bulk
  | remoteCallFast id fnId args retSize => cases bulk
  | getRpcFnId id fnName => cases bulk
  | isRpcAvailable id fnName => cases bulk

/-- A read of the whole buffer fits, and one of two bytes is answered with two. -/
theorem whole_buffer_read_fits :
    (Op.read 0 0 2048).RefusesOrFits (List.replicate 2048 0) 0 ∧
      let ctx : Ctx Unit :=
        { (HwioServer.prepared HwioServer.oneDevice 3 [] ()).service.request 0 [] with
          devices := [some 0] }
      (replyHeader ((Op.read 0 0 2).handled HwioServer.oneDevice ctx []).2.tx).bodyLen.toNat =
        2 := by
  constructor
  · exact (@request_sizes_fit_iff Unit (.read 0 0 2048) rfl (List.replicate 2048 0)
      List.length_replicate 0).1.mpr (Or.inl (Nat.le_refl _))
  · exact (@request_sizes_fit_iff Unit (.read 0 0 2) rfl (List.replicate 2048 0)
      List.length_replicate 0).2 HwioServer.oneDevice _ [] ⟨false, 5⟩ .readResp rfl
      (by decide +kernel) rfl (by decide +kernel)

/-- The longest write that the assertion allows is counted with seven bytes. -/
theorem long_write_wraps :
    (Op.write 0 0 (List.replicate 65535 0)).Asserted ∧
      (Op.write 0 0 (List.replicate 65535 0)).header.bodyLen = 7 ∧
      ¬ (Op.write 0 0 (List.replicate 65535 0)).RefusesOrFits (List.replicate 2048 0) 0 := by
  have asserted : (Op.write 0 0 (List.replicate 65535 0)).Asserted := by
    rw [Asserted, List.length_replicate]
  have wrapped : (Op.write 0 0 (List.replicate 65535 0)).header.bodyLen = 7 := by
    rw [header, bodyLen, List.length_replicate]
    rfl
  refine ⟨asserted, wrapped, ?_⟩
  intro fit
  have counted := (fit.resolve_left fun refused => refused asserted).counted
  rw [header_build, wrapped, fields, List.length_append, rdReq_length, List.length_replicate]
    at counted
  cases counted

end Op

end Hwio
