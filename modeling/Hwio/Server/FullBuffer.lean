import Hwio.Server.LaterFrames

/-!
Contract: the room that is left in a receive buffer when more bytes are read.

Owns the frames that fit the buffer, the room for every read of a run with such
frames, and a run in which a frame does not fit.

Does not own what the frames ask for.
-/

namespace Hwio

open Library

variable {World : Type}

/-- The longest body with which a frame still fits `RxBuffer::buffer`. -/
def maxRxBody : Nat := rxBufferSize - sizeofHeader

namespace HwioServer

/-- The bytes of the frames that are not dispatched yet are fewer than the next
of them has. -/
theorem Settled.pending {tables : Tables World} {start : Service World} {client : ClientPtr}
    {server : HwioServer World} (settled : Settled tables start client .idle server)
    {frames : List Frame} (sent : receivedBy client server.trace <+: frames.flatMap Frame.bytes)
    {record : ClientInfo} (live : server.heap client = some record) :
    record.rxBuffer.currLen = 0 ∨
      ∃ next ∈ frames, record.rxBuffer.currLen < next.bytes.length := by
  have incomplete := settled.incomplete live nofun nofun
  rw [(settled.waiting record live).stream] at sent
  obtain ⟨later, same, behind⟩ := Frame.selfDelimiting.words_eq sent
  rw [← RxBuffer.window_length]
  rcases Frame.selfDelimiting.pending_lt behind incomplete with
    none | ⟨next, more, split, _, less⟩
  · left
    rw [none, List.length_nil]
  · refine Or.inr ⟨next, ?_, less⟩
    rw [same, split]
    exact List.mem_append_right _ List.mem_cons_self

/-- In every run, also inside its passes: when all frames that a client sends
have bodies of at most 65533 bytes, there is room in its buffer whenever more is
read for it; and no frame with a longer body is ever dispatched. -/
theorem frames_deliverable {tables : Tables World} {master : Fd} {tx : List Byte} {world : World}
    {server : HwioServer World} (within : Within (prepared tables master tx world) .idle server)
    {client : ClientPtr}
    (tame : Justified (Tame tables (prepared tables master tx world).service client) server.trace)
    (frames : List Frame) (sent : receivedBy client server.trace <+: frames.flatMap Frame.bytes) :
    ((∀ frame ∈ frames, frame.body.length ≤ maxRxBody) →
      ∀ record, server.heap client = some record →
        0 < rxBufferSize - record.rxBuffer.currLen) ∧
    ∀ frame ∈ dispatchedTo client server.trace, frame.body.length ≤ maxRxBody := by
  have settled := (within.orderly client).settled tame
  refine ⟨fun short record live => ?_, fun frame dispatched => ?_⟩
  · rcases settled.pending sent live with empty | ⟨next, member, less⟩
    · rw [empty]
      decide
    · have fits := short next member
      rw [Frame.bytes_length] at less
      simp only [maxRxBody, sizeofHeader, rxBufferSize] at *
      omega
  · obtain ⟨event, member, same⟩ := List.mem_filterMap.mp dispatched
    cases event with
    | dispatched owner offset header rx =>
        simp only [Option.ite_none_right_eq_some, Option.some.injEq] at same
        obtain ⟨rfl, rfl⟩ := same
        have inside : offset + (sizeofHeader + header.bodyLen.toNat) ≤ rxBufferSize :=
          settled.sane.inside _ member rfl
        rw [Frame.received_body, load_length, maxRxBody]
        omega
    | _ => cases same

/-! ## A frame that does not fit -/

/-- Reading with a full buffer is taken for the end of the connection. -/
theorem readFromSocket_full (sys : Sys) (client : ClientPtr) {session : Session World}
    (full : rxBufferSize ≤ session.client.rxBuffer.currLen) :
    (readFromSocket sys client session).1 = false := by
  unfold readFromSocket
  simp only [Nat.sub_eq_zero_of_le full]
  split
  next bytes received =>
    obtain ⟨some, fits⟩ := sys.recv_bounds _ _ _ _ received
    exact absurd (List.length_eq_zero_iff.mp (Nat.le_zero.mp fits)) some
  · rfl

theorem parseLoop_waits (tables : Tables World) (sys : Sys) (client : ClientPtr) (fuel : Nat)
    {session : Session World}
    (incomplete : Incomplete sizeofHeader Frame.size session.client.rxBuffer.window) :
    parseLoop tables sys client fuel session = (.waiting, session) := by
  cases fuel with
  | zero => rfl
  | succ fuel =>
      rw [parseLoop]
      rcases incomplete_iff.mp incomplete with header | body
      · rw [if_pos header]
      · rw [if_pos body, ite_self]

theorem loneRun_waits (tables : Tables World) (tx : List Byte) (world : World)
    {bytes : List Byte} (some : bytes ≠ []) (fits : bytes.length ≤ rxBufferSize)
    (incomplete : Incomplete sizeofHeader Frame.size bytes) :
    let server := loneRun tables tx world bytes
    server.heap 0 = .some ⟨0, 4, ⟨bytes, 0, bytes.length⟩, []⟩ ∧
      receivedBy 0 server.trace = bytes := by
  have waiting : parseLoop tables (loneClient bytes) 0 bytes.length (loneSession tx world bytes) =
      (.waiting, loneSession tx world bytes) := by
    apply parseLoop_waits
    rw [RxBuffer.window]
    exact (load_whole bytes).symm ▸ incomplete
  intro server
  rw [show server = _ from loneRun_parsed tables tx world some fits waiting]
  exact ⟨rfl, by simp [receivedBy, loneSession]⟩

theorem ping_deliverable :
    let server := loneRun bareTables [] () [4, 0, 0, 4, 0]
    ∀ record, server.heap 0 = some record → 0 < rxBufferSize - record.rxBuffer.currLen := by
  intro server
  have within : Within (prepared bareTables 3 [] ()) .idle server :=
    ⟨loneClient [], server, loneRun_reached .., .refl⟩
  have harmless : harmlessRun bareTables (prepared bareTables 3 [] ()).service server.trace = true := by
    decide +kernel
  have tame : Justified (Tame bareTables (prepared bareTables 3 [] ()).service 0) server.trace :=
    fun front event back split => (harmless_of_harmlessRun harmless front event back split).tame 0
  have sent : receivedBy 0 server.trace <+:
      [(⟨4, [], by decide⟩ : Frame), ⟨4, [], by decide⟩].flatMap Frame.bytes := by
    decide +kernel
  exact (frames_deliverable within tame _ sent).1 (by decide)

/-- A WRITE with the longest body that a header can announce. -/
def longestFrame : Frame :=
  ⟨3, List.replicate 65535 0, by rw [List.length_replicate]; exact Nat.lt_succ_self _⟩

/-- When all but the last bytes of that frame have come, the buffer is full, and
the next read ends the connection whatever the client sends. -/
theorem longest_frame_undeliverable :
    let bytes := longestFrame.bytes.take rxBufferSize
    let server := loneRun bareTables [] () bytes
    Reached (prepared bareTables 3 [] ()) server ∧
      receivedBy 0 server.trace <+: longestFrame.bytes ∧
      (receivedBy 0 server.trace).length < longestFrame.bytes.length ∧
      ∃ record, server.heap 0 = some record ∧ rxBufferSize - record.rxBuffer.currLen = 0 ∧
        ∀ sys : Sys, (readFromSocket sys 0 (server.session record)).1 = false := by
  intro bytes server
  have body : longestFrame.body.length = 65535 := List.length_replicate
  have whole : longestFrame.bytes.length = 65538 := by
    rw [Frame.bytes_length, body, sizeofHeader]
  have length : bytes.length = rxBufferSize := by
    rw [List.length_take, whole]
    exact Nat.min_eq_left (by decide)
  have incomplete : Incomplete sizeofHeader Frame.size bytes := by
    right
    have starts : bytes <+: longestFrame.bytes ++ [] := by
      rw [List.append_nil]
      exact List.take_prefix _ _
    rw [Frame.selfDelimiting.take_header starts (by rw [length]; decide),
      Frame.selfDelimiting.size_eq, length, whole]
    decide
  have some : bytes ≠ [] := by
    intro empty
    rw [empty] at length
    exact absurd length (by decide)
  obtain ⟨live, received⟩ := loneRun_waits bareTables [] () some (Nat.le_of_eq length) incomplete
  refine ⟨loneRun_reached .., ?_, ?_, _, live, ?_, ?_⟩
  · rw [received]
    exact List.take_prefix _ _
  · rw [received, length, whole]
    decide
  · simp only [length, Nat.sub_self]
  · intro sys
    exact readFromSocket_full sys 0 (Nat.le_of_eq length.symm)

end HwioServer

end Hwio
