import Hwio.Client.Receiving
import Hwio.Client.Joint

/-!
Contract: an error from `send_err` of the server to the exception of
`hwio_device_remote::assert_response`.

Owns what a connection leaves in `rx_buffer`, the text that a client makes of an
error frame, and when it is the text of the server.

Does not own which requests are answered with an error.
-/

namespace Hwio

open Library

/-! ## What is left in the buffer -/

/-- The loop stores nothing behind the bytes it was asked for. -/
theorem rxBytesLoop_behind {size fuel bytesRead : Nat} {rxBuffer rxBuffer' : List Byte}
    {deliveries left : List Delivery} (below : bytesRead ≤ size)
    (returned : rxBytesLoop size fuel bytesRead rxBuffer deliveries =
      some (.ok (rxBuffer', left))) {index : Nat} (behind : size ≤ index) :
    rxBuffer'.getD index 0 = rxBuffer.getD index 0 := by
  induction fuel generalizing bytesRead rxBuffer deliveries with
  | zero => cases returned
  | succ fuel before =>
      rw [rxBytesLoop] at returned
      by_cases more : bytesRead < size
      · rw [if_pos more] at returned
        rcases got : recv deliveries (size - bytesRead) with ⟨received | _ | strerror, rest⟩
        · obtain ⟨atMost, _⟩ := recv_bytes (by omega) got
          rw [got] at returned
          rw [before (by omega) returned, store_getD, if_neg (by omega)]
        · rw [got] at returned
          exact before below returned
        · rw [got] at returned
          cases returned
      · rw [if_neg more] at returned
        cases returned
        rfl

theorem rxBytes_behind {size fuel : Nat} {rxBuffer rxBuffer' : List Byte}
    {deliveries left : List Delivery}
    (returned : rxBytes fuel size rxBuffer deliveries = some (.ok (rxBuffer', left)))
    {index : Nat} (behind : size ≤ index) :
    rxBuffer'.getD index 0 = rxBuffer.getD index 0 := by
  rw [rxBytes] at returned
  split at returned
  · exact rxBytesLoop_behind (Nat.zero_le _) returned behind
  · cases returned

/-- A packet is stored over the front of the buffer, its body over its header. -/
theorem rxPckt_behind {fuel : Nat} {rxBuffer rxBuffer' : List Byte}
    {deliveries left : List Delivery} {header : HwioPacketHeader}
    (returned : rxPckt fuel rxBuffer deliveries = some (.ok (header, rxBuffer', left)))
    {index : Nat} (behindHeader : sizeofHeader ≤ index) (behind : header.bodyLen.toNat ≤ index) :
    rxBuffer'.getD index 0 = rxBuffer.getD index 0 := by
  rw [rxPckt] at returned
  cases first : rxBytes fuel sizeofHeader rxBuffer deliveries with
  | none =>
      rw [first] at returned
      cases returned
  | some got =>
      rw [first] at returned
      rcases got with failure | ⟨between, rest⟩
      · cases returned
      · have front := rxBytes_behind first behindHeader
        simp only at returned
        split at returned
        · cases second : rxBytes fuel (HwioPacketHeader.at between 0).bodyLen.toNat between rest with
          | none =>
              rw [second] at returned
              cases returned
          | some body =>
              rw [second] at returned
              rcases body with failure | ⟨last, rest'⟩
              · cases returned
              · cases returned
                rw [rxBytes_behind second behind, front]
        · cases returned
          exact front

/-- The frames that a client has received from the beginning of its connection,
with `rx_buffer` and what is still to come. -/
inductive History (initial : List Byte) (deliveries : List Delivery) :
    List Frame → List Byte → List Delivery → Prop
  | start : History initial deliveries [] initial deliveries
  | receives {frames : List Frame} {rxBuffer : List Byte} {left : List Delivery}
      (before : History initial deliveries frames rxBuffer left) (fuel : Nat)
      {header : HwioPacketHeader} {rxBuffer' : List Byte} {left' : List Delivery}
      (returned : rxPckt fuel rxBuffer left = some (.ok (header, rxBuffer', left'))) :
      History initial deliveries (frames ++ [Frame.received header rxBuffer']) rxBuffer' left'

/-- The byte of the last frame that is long enough to have one at an index, or of
the buffer in the beginning. -/
def leftByte (initial : List Byte) (frames : List Frame) (index : Nat) : Byte :=
  frames.foldl (fun left frame => frame.body.getD index left) (initial.getD index 0)

theorem History.getD_eq {initial : List Byte} {deliveries left : List Delivery}
    {frames : List Frame} {rxBuffer : List Byte}
    (history : History initial deliveries frames rxBuffer left) {index : Nat}
    (behind : sizeofHeader ≤ index) : rxBuffer.getD index 0 = leftByte initial frames index := by
  induction history with
  | start => rfl
  | @receives frames rxBuffer left before fuel header rxBuffer' left' returned
      inductionHypothesis =>
      rw [leftByte, List.foldl_append, List.foldl_cons, List.foldl_nil, ← leftByte,
        ← inductionHypothesis, Frame.received_body,
        @List.getD_eq_getElem?_getD _ (load rxBuffer' 0 _), load_getElem?]
      by_cases inside : index < header.bodyLen.toNat
      · rw [if_pos inside, Nat.zero_add, Option.getD_some]
      · rw [if_neg inside, Option.getD_none]
        exact rxPckt_behind returned behind (Nat.not_lt.mp inside)

/-! ## The text of an error -/

/-- The string at an offset goes on behind some bytes that hold no zero. -/
theorem cstr_drop_of_free {memory : List Byte} {offset count : Nat}
    (free : 0 ∉ load memory offset count) :
    cstr (memory.drop offset) = load memory offset count ++ cstr (memory.drop (offset + count)) := by
  rw [← List.drop_drop]
  unfold load at free ⊢
  generalize memory.drop offset = rest at free ⊢
  induction count generalizing rest with
  | zero => rfl
  | succ count inductionHypothesis =>
      cases rest with
      | nil => exact absurd List.mem_cons_self free
      | cons byte rest =>
          have first : byte ≠ 0 := fun zero => free (zero ▸ List.mem_cons_self)
          have later : 0 ∉ rest.takeD count 0 := fun member => free (List.mem_cons_of_mem _ member)
          rw [cstr_cons_of_ne first, inductionHypothesis rest later]
          rfl

theorem cstr_drop_eq_nil_iff (memory : List Byte) (index : Nat) :
    cstr (memory.drop index) = [] ↔ memory.getD index 0 = 0 := by
  have first : memory.getD index 0 = (memory.drop index).getD 0 0 := by
    rw [List.getD_eq_getElem?_getD, List.getD_eq_getElem?_getD, List.getElem?_drop, Nat.add_zero]
  rw [first]
  cases memory.drop index with
  | nil => exact iff_of_true rfl rfl
  | cons byte rest =>
      by_cases zero : byte = 0
      · subst zero
        exact iff_of_true rfl rfl
      · rw [cstr_cons_of_ne zero]
        exact iff_of_false (List.cons_ne_nil _ _) zero

/-- What `assert_response` throws for an error with a code and a text. -/
def errorExn (what : Text) (errCode : UInt32) (msg : Text) : Exn :=
  ⟨true, what ++ decimal HwioCmd.msg.code.toNat ++
    (signedDecimal errCode.toInt32.toInt ++ text ": " ++ msg)⟩

theorem assertResponse_msg {header : HwioPacketHeader} (command : header.command = HwioCmd.msg.code)
    {expected : HwioCmd} (other : expected ≠ .msg) (rxBuffer : List Byte) (what : Text) :
    assertResponse header rxBuffer expected what =
      some (errorExn what (loadU32 rxBuffer 0) (cstr (rxBuffer.drop 4))) := by
  have codes : HwioCmd.msg.code ≠ expected.code := by
    revert other
    cases expected <;> decide
  rw [assertResponse, command, if_pos codes, if_pos rfl]
  rfl

/-- The next packet is received, and whatever other command was expected, the
exception for it carries the code and exactly the text. -/
def ErrorArrives (errCode : UInt32) (msg : Text) (rxBuffer : List Byte)
    (deliveries : List Delivery) : Prop :=
  ∃ fuel header rxBuffer' left,
    rxPckt fuel rxBuffer deliveries = some (.ok (header, rxBuffer', left)) ∧
      ∀ expected what, expected ≠ HwioCmd.msg →
        assertResponse header rxBuffer' expected what = some (errorExn what errCode msg)

section Sent

variable {errCode : UInt32} {msg : Text} {tx rxBuffer : List Byte} {deliveries : List Delivery}

/-- The header of an error whose text is shorter than its field. -/
theorem arriving_error (short : (cstr msg).length < maxErrMsgLen)
    (sent : arriving deliveries = load (sendErrInt errCode msg tx).2 0 sizeofErrMsg) :
    arrivingHeader deliveries =
      ⟨HwioCmd.msg.code, UInt16.ofNat (4 + (cstr msg).length)⟩ ∧
      (arrivingHeader deliveries).bodyLen.toNat = 4 + (cstr msg).length ∧
      (arriving deliveries).drop sizeofHeader =
        u32Bytes errCode ++ (strncpy msg maxErrMsgLen).take (maxErrMsgLen - sizeofHeader) := by
  rw [sendErrInt_sent, errMsgLen_of_short tx short] at sent
  have header : arrivingHeader deliveries =
      ⟨HwioCmd.msg.code, UInt16.ofNat (4 + (cstr msg).length)⟩ := by
    rw [arrivingHeader, sent]
    apply HwioPacketHeader.at_of_load
    rw [load_append_left _ (by rw [HwioPacketHeader.bytes_length, Nat.zero_add]),
      ← HwioPacketHeader.bytes_length ⟨HwioCmd.msg.code, UInt16.ofNat (4 + (cstr msg).length)⟩]
    exact load_whole _
  refine ⟨header, ?_, ?_⟩
  · have below : 4 + (cstr msg).length < 65536 := by
      unfold maxErrMsgLen at short
      omega
    rw [header]
    exact UInt16.toNat_ofNat_of_lt' below
  · rw [sent]
    exact List.drop_left' (HwioPacketHeader.bytes_length _)

/-- Whatever is received of an error is its code and its text, and behind them
what the buffer held before. -/
theorem received_error (short : (cstr msg).length < maxErrMsgLen)
    (sent : arriving deliveries = load (sendErrInt errCode msg tx).2 0 sizeofErrMsg)
    {fuel : Nat} {header : HwioPacketHeader} {rxBuffer' : List Byte} {left : List Delivery}
    (returned : rxPckt fuel rxBuffer deliveries = some (.ok (header, rxBuffer', left))) :
    header.command = HwioCmd.msg.code ∧
      (cstr msg).length ≤ maxErrMsgLen - sizeofHeader ∧
      loadU32 rxBuffer' 0 = errCode ∧
      cstr (rxBuffer'.drop 4) = cstr msg ++ cstr (rxBuffer'.drop (4 + (cstr msg).length)) ∧
      rxBuffer'.getD (4 + (cstr msg).length) 0 = rxBuffer.getD (4 + (cstr msg).length) 0 := by
  obtain ⟨same, _, whole, bytes, _⟩ := rxPckt_sound returned
  obtain ⟨headed, length, behind⟩ := arriving_error short sent
  have free := zero_not_mem_cstr msg
  rw [same, length] at whole bytes
  have fits : (cstr msg).length ≤ maxErrMsgLen - sizeofHeader := by
    rw [sent, load_length] at whole
    simp only [sizeofHeader, sizeofErrMsg, maxErrMsgLen] at whole ⊢
    omega
  have text : ((strncpy msg maxErrMsgLen).take (maxErrMsgLen - sizeofHeader)).take
      (cstr msg).length = cstr msg := by
    rw [List.take_take, Nat.min_eq_left fits, strncpy_take _ (Nat.le_of_lt short), ← strncpy_cstr,
      strncpy_of_ge free (Nat.le_refl _), List.take_length]
  have body : load rxBuffer' 0 (4 + (cstr msg).length) = u32Bytes errCode ++ cstr msg := by
    rw [List.take_add] at bytes
    have both := (List.append_inj bytes (by
      rw [HwioPacketHeader.bytes_length, List.length_take]
      omega)).2
    rw [both, behind, ← u32Bytes_length errCode, List.take_length_add_append, text]
  obtain ⟨code, chars⟩ := load_parts body (u32Bytes_length errCode)
  rw [Nat.zero_add] at chars
  refine ⟨by rw [same, headed], fits, loadU32_of_load code, ?_, ?_⟩
  · rw [cstr_drop_of_free (chars.symm ▸ free), chars]
  · apply rxPckt_behind returned
    · simp only [sizeofHeader]
      omega
    · rw [same, length]

/-- The text arrives just when the server sends all of it and the buffer holds a
zero behind it. -/
theorem errorArrives_iff (short : msg.length < maxErrMsgLen)
    (sent : arriving deliveries = load (sendErrInt errCode msg tx).2 0 sizeofErrMsg)
    (alive : ¬ Fails deliveries) :
    ErrorArrives errCode msg rxBuffer deliveries ↔
      0 ∉ msg ∧ msg.length ≤ maxErrMsgLen - sizeofHeader ∧
        rxBuffer.getD (4 + msg.length) 0 = 0 := by
  have shorter : (cstr msg).length < maxErrMsgLen := Nat.lt_of_le_of_lt (cstr_length_le msg) short
  constructor
  · intro arrives
    obtain ⟨fuel, header, rxBuffer', left, returned, thrown⟩ := arrives
    obtain ⟨command, fits, code, text, kept⟩ := received_error shorter sent returned
    have exn := thrown .readResp [] (by decide)
    rw [assertResponse_msg command (by decide), Option.some.injEq, code, errorExn, errorExn,
      Exn.mk.injEq] at exn
    have chars : cstr (rxBuffer'.drop 4) = msg :=
      List.append_cancel_left (List.append_cancel_left exn.2)
    have free : 0 ∉ msg := chars ▸ zero_not_mem_cstr _
    rw [cstr_of_not_mem free] at fits text kept
    refine ⟨free, fits, ?_⟩
    rw [← kept, ← cstr_drop_eq_nil_iff]
    rw [chars] at text
    exact List.append_right_eq_self.mp text.symm
  · rintro ⟨free, fits, zero⟩
    obtain ⟨headed, length, _⟩ := arriving_error shorter sent
    rw [cstr_of_not_mem free] at length
    have total : (arriving deliveries).length = sizeofErrMsg := by
      rw [sent, load_length]
    have limits : sizeofErrMsg = sizeofHeader + (4 + (maxErrMsgLen - sizeofHeader)) := rfl
    have buffer : 4 + (maxErrMsgLen - sizeofHeader) ≤ bufferSize := by decide
    have supplies : SuppliesPacket deliveries := {
      header := Or.inl (by omega)
      fits := fun _ => by omega
      body := fun _ => Or.inl (by omega) }
    obtain ⟨result, returned⟩ := rxPckt_returns supplies rxBuffer (Nat.lt_succ_self _)
    have sound := rxPckt_sound returned
    rcases result with failure | ⟨header, rxBuffer', left⟩
    · cases failure with
      | thrown exn => exact absurd sound.1 alive
      | assertion expression =>
          have large := sound.2
          omega
    · obtain ⟨command, _, code, text, kept⟩ := received_error shorter sent returned
      rw [cstr_of_not_mem free] at text kept
      refine ⟨_, header, rxBuffer', left, returned, ?_⟩
      intro expected what other
      rw [assertResponse_msg command other, code, text,
        (cstr_drop_eq_nil_iff _ _).mpr (kept.trans zero), List.append_nil]

end Sent

/-- After every history of a connection and for every error, the client throws
the code and exactly the text of the server just when the text is one of a C
string of which all characters are sent, and the last of the earlier frames
that is long enough left a zero behind it. -/
theorem error_text_arrives_iff {initial : List Byte} {deliveries left : List Delivery}
    {frames : List Frame} {rxBuffer : List Byte}
    (history : History initial deliveries frames rxBuffer left) {msg : Text}
    (short : msg.length < maxErrMsgLen) {errCode : UInt32} {tx : List Byte}
    (sent : arriving left = load (sendErrInt errCode msg tx).2 0 sizeofErrMsg)
    (alive : ¬ Fails left) :
    ErrorArrives errCode msg rxBuffer left ↔
      0 ∉ msg ∧ msg.length ≤ maxErrMsgLen - sizeofHeader ∧
        leftByte initial frames (4 + msg.length) = 0 := by
  have behind : sizeofHeader ≤ 4 + msg.length := by
    simp only [sizeofHeader]
    omega
  rw [errorArrives_iff short sent alive, history.getD_eq behind]

/-- A `tx_buffer` or `rx_buffer` of zeros. -/
def clearBuffer : List Byte := List.replicate bufferSize 0

/-- An error that arrives at once. -/
def errorDelivery (errCode : UInt32) (msg : Text) : List Delivery :=
  [.chunk HwioCmd.msg.code ((load (sendErrInt errCode msg clearBuffer).2 0 sizeofErrMsg).drop 1)]

/-- On a new connection with a clear buffer the text arrives. -/
theorem first_error_text_arrives :
    ErrorArrives 4 (text "no device") clearBuffer (errorDelivery 4 (text "no device")) := by
  have sent : arriving (errorDelivery 4 (text "no device")) =
      load (sendErrInt 4 (text "no device") clearBuffer).2 0 sizeofErrMsg := by decide +kernel
  have alive : ¬ Fails (errorDelivery 4 (text "no device")) := by
    rintro ⟨strerror, member⟩
    cases List.mem_singleton.mp member
  exact (error_text_arrives_iff .start (by decide) sent alive).mpr
    ⟨by decide, by decide, by decide +kernel⟩

/-- Data of twenty bytes that were read before are thrown with the next text. -/
theorem read_data_behind_error_text :
    let data := List.replicate 20 42
    let readResp := Delivery.chunk 2 (20 :: 0 :: data)
    let rxBuffer := store (store clearBuffer 0 [2, 20, 0]) 0 data
    let left := errorDelivery 4 (text "no")
    History clearBuffer (readResp :: left) [Frame.received ⟨2, 20⟩ rxBuffer] rxBuffer left ∧
      arriving left = load (sendErrInt 4 (text "no") clearBuffer).2 0 sizeofErrMsg ∧
      ¬ ErrorArrives 4 (text "no") rxBuffer left := by
  intro data readResp rxBuffer left
  have received : rxPckt 2 clearBuffer (readResp :: left) =
      some (.ok (⟨2, 20⟩, rxBuffer, left)) := by rfl
  have sent : arriving left = load (sendErrInt 4 (text "no") clearBuffer).2 0 sizeofErrMsg := by
    decide +kernel
  have alive : ¬ Fails left := by
    rintro ⟨strerror, member⟩
    cases List.mem_singleton.mp member
  refine ⟨.receives .start 2 received, sent, ?_⟩
  rw [errorArrives_iff (by decide) sent alive]
  rintro ⟨_, _, zero⟩
  exact absurd zero (by decide +kernel)

end Hwio
