import Hwio.Library.Refills
import Hwio.Server.LaterFrames

/-!
Contract: the copies with which `read_from_socket` makes room in a receive
buffer.

Owns the refills of a receive buffer in a history, what is in the buffer after
them, and which of its copies `memcpy` allows.

Does not own what the frames ask for.
-/

namespace Hwio

open Library

variable {World : Type}

/-! ## The bytes behind a frame -/

/-- What is left of received bytes when the frame at their front was handled; a
MSG has its terminator stored, wherever the frame ends. -/
def behindFrame (window : List Byte) : List Byte :=
  let header := HwioPacketHeader.at window 0
  let handled :=
    if header.command = HwioCmd.msg.code then
      window.set (sizeofHeader + (4 + (maxNameLen - 1))) 0
    else window
  handled.drop (sizeofHeader + header.bodyLen.toNat)

namespace HwioServer

theorem header_window {rx : RxBuffer} (holds : sizeofHeader ≤ rx.currLen) :
    HwioPacketHeader.at rx.window 0 = HwioPacketHeader.at rx.buffer rx.currPtr := by
  apply HwioPacketHeader.at_of_load
  rw [RxBuffer.window, HwioPacketHeader.bytes_at, load_load _ (by rwa [Nat.zero_add]),
    Nat.add_zero]

theorem drop_window {rx : RxBuffer} (complete : rx.msgLen ≤ rx.currLen) :
    rx.window.drop rx.msgLen =
      load rx.buffer (rx.currPtr + rx.msgLen) (rx.currLen - rx.msgLen) := by
  rw [window_eq_frame complete]
  apply List.drop_left'
  rw [Frame.bytes_length, Frame.received_body, load_length]
  rfl

/-- `handle_msg` leaves behind a complete frame what `behindFrame` tells. -/
theorem handleMsg_behind (tables : Tables World) {rx : RxBuffer}
    (complete : rx.msgLen ≤ rx.currLen) (ctx : Ctx World)
    (request : ctx.rx = rx.buffer.drop (rx.currPtr + sizeofHeader)) :
    let header := HwioPacketHeader.at rx.buffer rx.currPtr
    load (handleMsg tables header ctx).2.rx header.bodyLen.toNat (rx.currLen - rx.msgLen) =
      behindFrame rx.window := by
  intro header
  have same : HwioPacketHeader.at rx.window 0 = header :=
    header_window (Nat.le_trans (Nat.le_add_right _ _) complete)
  have rest : load ctx.rx header.bodyLen.toNat (rx.currLen - rx.msgLen) =
      rx.window.drop rx.msgLen := by
    rw [drop_window complete, request, load_drop, RxBuffer.msgLen, Nat.add_assoc]
  have size : sizeofHeader + header.bodyLen.toNat = rx.msgLen := rfl
  simp only [behindFrame, same]
  by_cases msg : header.command = HwioCmd.msg.code
  · rw [if_pos msg, handleMsg_msg_rx tables ctx msg, List.drop_set, size]
    by_cases inside : sizeofHeader + (4 + (maxNameLen - 1)) < rx.msgLen
    · rw [if_pos inside, load_store_apart _ (Or.inr ?_), rest]
      rw [List.length_singleton]
      omega
    · rw [if_neg inside, load_store_singleton _ _ (by omega), rest]
      congr 1
      omega
  · rw [if_neg msg, handleMsg_rx tables header ctx msg, rest, size]

/-- A request that does not return stores nothing. -/
theorem handleMsg_stopped_rx {tables : Tables World} {header : HwioPacketHeader}
    {ctx : Ctx World} {stop : Stop} (stopped : (handleMsg tables header ctx).1 = .error stop) :
    (handleMsg tables header ctx).2.rx = ctx.rx := by
  apply handleMsg_rx
  intro msg
  unfold handleMsg at stopped
  rw [msg, HwioCmd.ofCode_code] at stopped
  cases stopped

theorem afterMsg_window (client : ClientPtr) {session : Session World} {ctx : Ctx World}
    (same : ctx.rx = session.request.rx) :
    (session.afterMsg client ctx).client.rxBuffer.window = session.client.rxBuffer.window := by
  show load (session.client.rxBuffer.buffer.takeD
    (session.client.rxBuffer.currPtr + sizeofHeader) 0 ++ ctx.rx) _ _ = _
  rw [same]
  exact load_takeD_append_drop ..

/-! ## The refills of a connection -/

/-- A read refills the buffer of its connection, and a frame that was handled is
taken off it. -/
def refillStep (client : ClientPtr) (refills : List (Refill Byte)) : Event → List (Refill Byte)
  | .received owner _ _ bytes => if owner = client then refill bytes refills else refills
  | .handled owner _ => if owner = client then takeOff refills else refills
  | _ => refills

/-- The refills of a connection in a history, the last one first. -/
def refillsOf (client : ClientPtr) (history : List Event) : List (Refill Byte) :=
  history.foldl (refillStep client) []

theorem refillsOf_append (client : ClientPtr) (first second : List Event) :
    refillsOf client (first ++ second) =
      second.foldl (refillStep client) (refillsOf client first) :=
  List.foldl_append

/-- The events that neither refill a buffer nor take anything off it. -/
def Unfilled (client : ClientPtr) : Event → Prop
  | .received owner _ _ _ | .handled owner _ => owner ≠ client
  | _ => True

theorem refillsOf_unfilled {client : ClientPtr} (history : List Event) {events : List Event}
    (unfilled : ∀ event ∈ events, Unfilled client event) :
    refillsOf client (history ++ events) = refillsOf client history := by
  rw [refillsOf_append]
  induction events with
  | nil => rfl
  | cons event rest inductionHypothesis =>
      have first : refillStep client (refillsOf client history) event =
          refillsOf client history := by
        have quiet := unfilled event List.mem_cons_self
        cases event with
        | received owner offset room bytes => exact if_neg quiet
        | handled owner disconnect => exact if_neg quiet
        | _ => rfl
      rw [List.foldl_cons, first]
      exact inductionHypothesis fun other member => unfilled other (List.mem_cons_of_mem _ member)

theorem unfilled_of_other {client : ClientPtr} {event : Event}
    (other : Idle event ∨ actor event ≠ some client) : Unfilled client event := by
  rcases other with idle | other
  · cases event <;> first | exact trivial | exact absurd idle id
  · cases event with
    | received owner offset room bytes => exact fun mine => other (congrArg some mine)
    | handled owner disconnect => exact fun mine => other (congrArg some mine)
    | _ => exact trivial

/-- A connection that has done nothing was never refilled. -/
theorem refillsOf_unborn {client : ClientPtr} {server : HwioServer World}
    (numbered : Numbered server) (unborn : server.nextClient ≤ client) :
    refillsOf client server.trace = [] := by
  have same := @refillsOf_unfilled client [] server.trace fun event member => ?_
  · rwa [List.nil_append] at same
  · refine unfilled_of_other (Or.inr fun acting => ?_)
    exact Nat.lt_irrefl client
      (Nat.lt_of_lt_of_le (numbered.acted event member client acting) unborn)

/-- What is read refills the buffer. -/
theorem refillsOf_received {client : ClientPtr} (history : List Event) {events : List Event}
    (unfilled : ∀ event ∈ events, Unfilled client event) (offset room : Nat) (bytes : List Byte) :
    refillsOf client (history ++ events ++ [.received client offset room bytes]) =
      refill bytes (refillsOf client history) := by
  rw [refillsOf_append, refillsOf_unfilled history unfilled]
  exact if_pos rfl

/-- What is handled is taken off the buffer. -/
theorem refillsOf_handled {client : ClientPtr} (history : List Event) {events : List Event}
    (unfilled : ∀ event ∈ events, Unfilled client event) (disconnect : Bool) :
    refillsOf client (history ++ events ++ [.handled client disconnect]) =
      takeOff (refillsOf client history) := by
  rw [refillsOf_append, refillsOf_unfilled history unfilled]
  exact if_pos rfl

/-! ## The buffers of all connections -/

/-- The beginning of a frame at most. -/
abbrev NoFrame (window : List Byte) : Prop := Incomplete sizeofHeader Frame.size window

/-- What was left behind each refill is no whole frame. -/
abbrev Drained (refills : List (Refill Byte)) : Prop := UsedUp behindFrame NoFrame refills

/-- The buffer of a live connection holds what its history left, behind what was
taken off since the last read; and while its requests return, every read finds
only the beginning of a frame. -/
structure Buffered (tables : Tables World) (start : Service World) (client : ClientPtr)
    (mode : Mode) (record : ClientInfo) (history : List Event) : Prop where
  window : record.rxBuffer.window = remaining behindFrame (refillsOf client history)
  place : record.rxBuffer.currPtr + record.rxBuffer.currLen =
      (filled behindFrame (refillsOf client history)).length ∨
    record.rxBuffer.currPtr = 0 ∧ mode ≠ .serving client
  begun : mode = .serving client → refillsOf client history ≠ []
  only : OnlyWords behindFrame NoFrame (refillsOf client history)
  earlier : Justified (Returns tables start client) history →
    Drained (refillsOf client history).tail
  waits : Justified (Returns tables start client) history → mode ≠ .serving client →
    mode ≠ .doomed client → Drained (refillsOf client history)

theorem Buffered.count {tables : Tables World} {start : Service World} {client : ClientPtr}
    {mode : Mode} {record : ClientInfo} {history : List Event}
    (buffered : Buffered tables start client mode record history) :
    record.rxBuffer.currLen = (remaining behindFrame (refillsOf client history)).length := by
  rw [← buffered.window, RxBuffer.window_length]

def Buffers (tables : Tables World) (start : Service World) (client : ClientPtr) (mode : Mode)
    (server : HwioServer World) : Prop :=
  ∀ record, server.heap client = some record →
    Buffered tables start client mode record server.trace

/-- A copy in a buffer moves what is left of the last refill from behind what was
taken off. -/
def Placed (tables : Tables World) (start : Service World) (client : ClientPtr)
    (front : List Event) : Event → Prop
  | .copied owner source count => owner = client →
    source + count = (filled behindFrame (refillsOf client front)).length ∧
      count = (remaining behindFrame (refillsOf client front)).length ∧
      OnlyWords behindFrame NoFrame (refillsOf client front) ∧
      (Justified (Returns tables start client) front → Drained (refillsOf client front))
  | _ => True

section

variable {tables : Tables World} {start : Service World} {client : ClientPtr} {sys : Sys}

/-- The events of other connections, of idle ones and of answers are no copies. -/
def Uncopied (client : ClientPtr) : Event → Prop
  | .copied owner _ _ => owner ≠ client
  | _ => True

theorem placed_append {history events : List Event}
    (placed : Justified (Placed tables start client) history)
    (uncopied : ∀ event ∈ events, Uncopied client event) :
    Justified (Placed tables start client) (history ++ events) := by
  apply placed.append_free
  intro event member front
  have other := uncopied event member
  cases event with
  | copied owner source count => exact fun mine => absurd mine other
  | _ => exact trivial

/-- What a read copies is what is left of the last refill. -/
theorem Buffered.placed_copies {record : ClientInfo} {history copies : List Event}
    (buffered : Buffered tables start client .idle record history)
    (placed : Justified (Placed tables start client) history)
    (copied : copies = [] ∨
      copies = [.copied client record.rxBuffer.currPtr record.rxBuffer.currLen] ∧
        0 < record.rxBuffer.currLen ∧ record.rxBuffer.currPtr ≠ 0) :
    Justified (Placed tables start client) (history ++ copies) := by
  rcases copied with rfl | ⟨rfl, _, behind⟩
  · rw [List.append_nil]
    exact placed
  · apply placed.snoc
    intro _
    refine ⟨?_, buffered.count, buffered.only, fun returns =>
      buffered.waits returns nofun nofun⟩
    rcases buffered.place with whole | ⟨front, _⟩
    · exact whole
    · exact absurd front behind

/-- Bytes that come refill the buffer. -/
theorem Buffered.refilled {record : ClientInfo} {history copies : List Event}
    (buffered : Buffered tables start client .idle record history)
    (unfilled : ∀ event ∈ copies, Unfilled client event) {buffer : List Byte}
    (window : load buffer 0 record.rxBuffer.currLen = record.rxBuffer.window)
    (room : Nat) (bytes : List Byte) :
    Buffered tables start client (.serving client)
      { record with rxBuffer := ⟨store buffer record.rxBuffer.currLen bytes, 0,
        record.rxBuffer.currLen + bytes.length⟩ }
      (history ++ copies ++ [.received client record.rxBuffer.currLen room bytes]) := by
  have refilled := refillsOf_received history unfilled record.rxBuffer.currLen room bytes
  exact {
    window := by
      rw [refilled, remaining_refill, ← buffered.window]
      exact window_received window bytes
    place := by
      rw [refilled, filled_refill, List.length_append, ← buffered.count]
      exact Or.inl (Nat.zero_add _)
    begun _ := by
      rw [refilled]
      exact List.cons_ne_nil _ _
    only := by
      rw [refilled]
      exact buffered.only.refill bytes
    earlier returns := by
      rw [refilled]
      rw [List.append_assoc] at returns
      exact buffered.waits ((justified_append_iff _ _).mp returns).1 nofun nofun
    waits _ served := absurd rfl served }

/-- When no bytes come, what is left is only moved. -/
theorem Buffered.moved {record : ClientInfo} {history copies : List Event}
    (buffered : Buffered tables start client .idle record history)
    (unfilled : ∀ event ∈ copies, Unfilled client event) {buffer : List Byte}
    (window : load buffer 0 record.rxBuffer.currLen = record.rxBuffer.window) :
    Buffered tables start client .idle
      { record with rxBuffer := ⟨buffer, 0, record.rxBuffer.currLen⟩ } (history ++ copies) := by
  have same := refillsOf_unfilled history unfilled
  have drained : Justified (Returns tables start client) (history ++ copies) →
      Drained (refillsOf client (history ++ copies)) := by
    intro returns
    rw [same]
    exact buffered.waits ((justified_append_iff _ _).mp returns).1 nofun nofun
  exact {
    window := by
      rw [same, ← buffered.window]
      exact window
    place := Or.inr ⟨rfl, nofun⟩
    begun := nofun
    only := by
      rw [same]
      exact buffered.only
    earlier returns := (drained returns).tail
    waits returns _ _ := drained returns }

/-- A read moves what is left to the front, and refills the buffer when bytes
came. -/
theorem Buffered.read {record : ClientInfo} {server : HwioServer World}
    (buffered : Buffered tables start client .idle record server.trace)
    (placed : Justified (Placed tables start client) server.trace) :
    ((readFromSocket sys client (server.session record)).1 = true →
      Buffered tables start client (.serving client)
        (readFromSocket sys client (server.session record)).2.client
        (readFromSocket sys client (server.session record)).2.trace) ∧
    ((readFromSocket sys client (server.session record)).1 = false →
      Buffered tables start client .idle
        (readFromSocket sys client (server.session record)).2.client
        (readFromSocket sys client (server.session record)).2.trace) ∧
    Justified (Placed tables start client)
      (readFromSocket sys client (server.session record)).2.trace := by
  obtain ⟨copies, buffer, window, copied, ended⟩ :=
    readFromSocket_eq sys client (server.session record)
  have unfilled : ∀ event ∈ copies, Unfilled client event := by
    intro event member
    rcases copied with rfl | ⟨rfl, _⟩
    · cases member
    · rw [List.mem_singleton.mp member]
      exact trivial
  have placed' := buffered.placed_copies placed copied
  rcases ended with ⟨bytes, _, read⟩ | read
  · rw [read]
    refine ⟨fun _ => buffered.refilled unfilled window _ bytes, nofun, ?_⟩
    refine placed_append placed' fun event member => ?_
    rw [List.mem_singleton.mp member]
    exact trivial
  · rw [read]
    exact ⟨nofun, fun _ => buffered.moved unfilled window, placed'⟩

theorem Buffered.whole {record : ClientInfo} {history : List Event}
    (buffered : Buffered tables start client (.serving client) record history) :
    record.rxBuffer.currPtr + record.rxBuffer.currLen =
      (filled behindFrame (refillsOf client history)).length := by
  rcases buffered.place with whole | ⟨_, served⟩
  · exact whole
  · exact absurd rfl served

theorem unfilled_request (client : ClientPtr) (offset : Nat) (header : HwioPacketHeader)
    (rx : List Byte) (calls : List Call) :
    ∀ event ∈ .dispatched client offset header rx :: calls.map (.called client),
      Unfilled client event := by
  intro event member
  rcases List.mem_cons.mp member with rfl | call
  · exact trivial
  · exact forall_called (fun _ => trivial) calls event call

/-- A request that does not return leaves its frame in the buffer. -/
theorem Buffered.stopped {record : ClientInfo} {server : HwioServer World}
    (known : Known tables start server) (live : server.heap client = some record)
    (buffered : Buffered tables start client (.serving client) record server.trace) {stop : Stop}
    (failed : (handleMsg tables (HwioPacketHeader.at record.rxBuffer.buffer
      record.rxBuffer.currPtr) (server.session record).request).1 = .error stop) :
    let after := (server.session record).afterMsg client (handleMsg tables
      (HwioPacketHeader.at record.rxBuffer.buffer record.rxBuffer.currPtr)
      (server.session record).request).2
    Buffered tables start client .idle after.client after.trace := by
  intro after
  have same : refillsOf client after.trace = refillsOf client server.trace :=
    refillsOf_unfilled server.trace (unfilled_request client _ _ _ _)
  have window : after.client.rxBuffer.window = record.rxBuffer.window :=
    afterMsg_window client (handleMsg_stopped_rx failed)
  have unreturned : ¬ Justified (Returns tables start client) after.trace := by
    intro returns
    obtain ⟨res, ok⟩ := returns server.trace _ _ rfl rfl
    rw [known.request live] at ok
    cases failed.symm.trans ok
  exact {
    window := by rw [same, window, buffered.window]
    place := by
      rw [same]
      exact Or.inl buffered.whole
    begun := nofun
    only := by
      rw [same]
      exact buffered.only
    earlier returns := absurd returns unreturned
    waits returns := absurd returns unreturned }

/-- A request that returns takes its frame off the buffer. -/
theorem Buffered.consumed {record : ClientInfo} {server : HwioServer World}
    (complete : record.rxBuffer.msgLen ≤ record.rxBuffer.currLen)
    (buffered : Buffered tables start client (.serving client) record server.trace)
    {sent : List Event} (onlySent : ∀ event ∈ sent, ∃ part, event = .sent client part)
    (disconnect : Bool) :
    let after := (server.session record).consumed client (handleMsg tables
      (HwioPacketHeader.at record.rxBuffer.buffer record.rxBuffer.currPtr)
      (server.session record).request).2 (sent ++ [.handled client disconnect])
    Buffered tables start client (if disconnect then .doomed client else .serving client)
      after.client after.trace := by
  intro after
  have trace : after.trace = server.trace ++ (.dispatched client record.rxBuffer.currPtr
      (HwioPacketHeader.at record.rxBuffer.buffer record.rxBuffer.currPtr)
      (server.session record).request.rx :: (handleMsg tables
        (HwioPacketHeader.at record.rxBuffer.buffer record.rxBuffer.currPtr)
        (server.session record).request).2.calls.map (.called client) ++ sent) ++
          [.handled client disconnect] := by
    simp only [after, Session.consumed, Session.afterMsg, HwioServer.session, List.append_assoc]
  have taken : refillsOf client after.trace = takeOff (refillsOf client server.trace) := by
    rw [trace]
    apply refillsOf_handled
    intro event member
    rcases List.mem_append.mp member with request | part
    · exact unfilled_request client _ _ _ _ event request
    · obtain ⟨bytes, rfl⟩ := onlySent event part
      exact trivial
  have window : after.client.rxBuffer.window = behindFrame record.rxBuffer.window := by
    rw [consumed_window_eq]
    exact handleMsg_behind tables complete (server.session record).request rfl
  have begun := buffered.begun rfl
  have header : sizeofHeader ≤ record.rxBuffer.msgLen := Nat.le_add_right _ _
  exact {
    window := by rw [taken, remaining_takeOff behindFrame begun, window, buffered.window]
    place := by
      left
      rw [taken, filled_takeOff, ← buffered.whole]
      show record.rxBuffer.currPtr + record.rxBuffer.msgLen +
        (record.rxBuffer.currLen - record.rxBuffer.msgLen) = _
      omega
    begun _ := by
      rw [taken]
      cases refills : refillsOf client server.trace with
      | nil => exact absurd refills begun
      | cons last earlier => exact List.cons_ne_nil _ _
    only := by
      rw [taken]
      apply buffered.only.takeOff
      rw [← buffered.window]
      exact fun incomplete => absurd (incomplete_iff.mp incomplete) (by omega)
    earlier returns := by
      rw [trace, List.append_assoc] at returns
      rw [taken, tail_takeOff]
      exact buffered.earlier ((justified_append_iff _ _).mp returns).1
    waits _ served doomed := by
      cases disconnect with
      | true => exact absurd rfl doomed
      | false => exact absurd rfl served }

/-- When what is left is no whole frame, the buffer waits for more. -/
theorem Buffered.rests {record : ClientInfo} {history : List Event}
    (buffered : Buffered tables start client (.serving client) record history)
    (incomplete : record.rxBuffer.currLen < sizeofHeader ∨
      record.rxBuffer.currLen < record.rxBuffer.msgLen) :
    Buffered tables start client .idle record history where
  window := buffered.window
  place := Or.inl buffered.whole
  begun := nofun
  only := buffered.only
  earlier := buffered.earlier
  waits returns _ _ := by
    have now := incomplete_iff.mpr incomplete
    have earlier := buffered.earlier returns
    rw [buffered.window] at now
    cases refills : refillsOf client history with
    | nil => exact absurd refills (buffered.begun rfl)
    | cons last before =>
        rw [refills] at now earlier
        exact ⟨now, earlier⟩

/-! ## The moves of a pass -/

/-- Events of others and idle ones leave the buffer of a connection as it is,
when its record stays, is deleted or is new. -/
theorem Buffers.others {mode mode' : Mode} {before after : HwioServer World}
    (buffers : Buffers tables start client mode before) (numbered : Numbered before)
    {events : List Event} (trace : after.trace = before.trace ++ events)
    (others : ∀ event ∈ events, Idle event ∨ actor event ≠ some client)
    (notServed : mode ≠ .serving client) (notServed' : mode' ≠ .serving client)
    (records : ∀ record, after.heap client = some record →
      (before.heap client = some record ∧ mode ≠ .doomed client) ∨
        (before.nextClient ≤ client ∧ record.rxBuffer.currPtr = 0 ∧
          record.rxBuffer.currLen = 0)) :
    Buffers tables start client mode' after := by
  have same : refillsOf client after.trace = refillsOf client before.trace := by
    rw [trace]
    exact refillsOf_unfilled _ fun event member => unfilled_of_other (others event member)
  intro record live
  rcases records record live with ⟨old, healthy⟩ | ⟨unborn, front, empty⟩
  · have buffered := buffers record old
    have drained : Justified (Returns tables start client) after.trace →
        Drained (refillsOf client after.trace) := by
      intro returns
      rw [trace] at returns
      rw [same]
      exact buffered.waits ((justified_append_iff _ _).mp returns).1 notServed healthy
    exact {
      window := by rw [same, buffered.window]
      place := by
        rw [same]
        exact buffered.place.imp id fun moved => ⟨moved.1, notServed'⟩
      begun served := absurd served notServed'
      only := by
        rw [same]
        exact buffered.only
      earlier returns := (drained returns).tail
      waits returns _ _ := drained returns }
  · have none : refillsOf client after.trace = [] := by
      rw [same]
      exact refillsOf_unborn numbered unborn
    have drained : Drained (refillsOf client after.trace) := by
      rw [none]
      exact trivial
    exact {
      window := by
        rw [none, RxBuffer.window, empty]
        rfl
      place := Or.inr ⟨front, notServed'⟩
      begun served := absurd served notServed'
      only := by
        rw [none]
        exact trivial
      earlier _ := drained.tail
      waits _ _ _ := drained }

theorem Buffers.own {mode : Mode} {session : Session World} (server : HwioServer World)
    (buffered : Buffered tables start client mode session.client session.trace) :
    Buffers tables start client mode (server.putSession client session) := by
  intro record live
  rw [putSession_heap, Option.some.injEq] at live
  rw [← live]
  exact buffered

/-- What every move keeps for a connection. -/
structure Tracked (tables : Tables World) (start : Service World) (client : ClientPtr)
    (mode : Mode) (server : HwioServer World) : Prop where
  known : Known tables start server
  buffers : Buffers tables start client mode server
  placed : Justified (Placed tables start client) server.trace

theorem placed_others {history events : List Event}
    (placed : Justified (Placed tables start client) history)
    (others : ∀ event ∈ events, Idle event ∨ actor event ≠ some client) :
    Justified (Placed tables start client) (history ++ events) := by
  refine placed_append placed fun event member => ?_
  rcases others event member with idle | other
  · cases event <;> first | exact trivial | exact absurd idle id
  · cases event with
    | copied owner source count => exact fun mine => other (congrArg some mine)
    | _ => exact trivial

/-- The handling of a frame copies nothing. -/
theorem placed_answered {tables' : Tables World} {owner : ClientPtr} {session : Session World}
    (placed : Justified (Placed tables start client) session.trace) :
    Justified (Placed tables start client) (handleFrame tables' sys owner session).2.trace := by
  rcases handleFrame_eq tables' sys owner session with
    ⟨stop, _, left⟩ | ⟨res, sent, disconnect, _, onlySent, _, _, left⟩
  · rw [left]
    refine placed_append placed fun event member => ?_
    rcases List.mem_cons.mp member with rfl | call
    · exact trivial
    · exact forall_called (fun _ => trivial) _ event call
  · rw [left]
    simp only [Session.consumed, Session.afterMsg, List.append_assoc]
    refine placed_append placed fun event member => ?_
    rcases List.mem_cons.mp member with rfl | later
    · exact trivial
    · exact forall_answer (fun _ => trivial) (fun _ => trivial) trivial _ onlySent event later

/-- Every move keeps what is known of the buffer of a connection and of the
copies in it. -/
theorem Move.tracked {mode mode' : Mode} {before after : HwioServer World}
    (move : Move sys before mode mode' after)
    (tracked : Tracked tables start client mode before) :
    Tracked tables start client mode' after := by
  have known' := Move.known move tracked.known
  have numbered := tracked.known.numbered
  -- a move that is no work on the connection
  have others : ∀ events, after.trace = before.trace ++ events →
      (∀ event ∈ events, Idle event ∨ actor event ≠ some client) →
      mode ≠ .serving client → mode' ≠ .serving client →
      (∀ record, after.heap client = some record →
        (before.heap client = some record ∧ mode ≠ .doomed client) ∨
          (before.nextClient ≤ client ∧ record.rxBuffer.currPtr = 0 ∧
            record.rxBuffer.currLen = 0)) →
      Tracked tables start client mode' after := by
    intro events trace quiet notServed notServed' records
    refine ⟨known', tracked.buffers.others numbered trace quiet notServed notServed' records, ?_⟩
    rw [trace]
    exact placed_others tracked.placed quiet
  -- work on another connection
  have apart : ∀ {other record session}, client ≠ other →
      Traffic other (before.session record) session →
      after = before.putSession other session → mode ≠ .serving client →
      mode' ≠ .serving client → mode ≠ .doomed client →
      Tracked tables start client mode' after := by
    intro other record session apart traffic put notServed notServed' healthy
    obtain ⟨events, trace, own⟩ := traffic.trace
    refine others events (by rw [put]; exact trace) ?_ notServed notServed' ?_
    · intro event member
      right
      rw [(own event member).2]
      exact fun same => apart (Option.some.inj same).symm
    · intro left live
      rw [put] at live
      simp only [putSession, Function.update_of_ne apart] at live
      exact Or.inl ⟨live, healthy⟩
  cases move with
  | noted event notice =>
      refine others [event] rfl ?_ (by simp) (by simp) fun record live => Or.inl ⟨live, by simp⟩
      intro other member
      rw [List.mem_singleton.mp member]
      exact Or.inl (Notice.idle notice)
  | allocated socket =>
      refine others [.created before.nextClient socket] rfl ?_ (by simp) (by simp) ?_
      · intro event member
        rw [List.mem_singleton.mp member]
        exact Or.inl trivial
      · intro record live
        rcases allocClient_live live with ⟨rfl, rfl⟩ | ⟨_, there⟩
        · exact Or.inr ⟨Nat.le_refl _, rfl, rfl⟩
        · exact Or.inl ⟨there, by simp⟩
  | listed socket other => exact ⟨known', tracked.buffers, tracked.placed⟩
  | queued fd => exact ⟨known', tracked.buffers, tracked.placed⟩
  | cleaned => exact ⟨known', tracked.buffers, tracked.placed⟩
  | dropped other record live =>
      have idle := idle_closeOnDelete other record.fd
      refine others _ rfl (fun event member => Or.inl (idle event member)) (by simp) (by simp) ?_
      exact fun left there => Or.inl ⟨(deleteClient_live there).2, by simp⟩
  | removed other record live =>
      have idle := idle_closeOnDelete other record.fd
      refine others _ rfl (fun event member => Or.inl (idle event member)) (by simp) (by simp) ?_
      intro left there
      obtain ⟨other, was⟩ := deleteClient_live there
      refine Or.inl ⟨was, fun doomed => ?_⟩
      cases doomed
      exact other rfl
  | received other record live came =>
      by_cases same : client = other
      · subst same
        obtain ⟨served, _, placed⟩ := (tracked.buffers record live).read tracked.placed
        exact ⟨known', Buffers.own before (served came), placed⟩
      · exact apart same (readFromSocket_traffic sys other (before.session record)) rfl (by simp)
          (by simp [Ne.symm same]) (by simp)
  | failed other record live ended =>
      by_cases same : client = other
      · subst same
        obtain ⟨_, failed, placed⟩ := (tracked.buffers record live).read tracked.placed
        exact ⟨known', Buffers.own before (failed ended), placed⟩
      · exact apart same (readFromSocket_traffic sys other (before.session record)) rfl (by simp)
          (by simp) (by simp)
  | waits other record live incomplete =>
      by_cases same : client = other
      · subst same
        refine ⟨known', fun left there => ?_, tracked.placed⟩
        obtain rfl := Option.some.inj (live.symm.trans there)
        exact (tracked.buffers record live).rests incomplete
      · exact others [] (List.append_nil _).symm (by simp) (by simp [Ne.symm same]) (by simp)
          fun record live => Or.inl ⟨live, by simp⟩
  | answered other record live complete mode' ended =>
      by_cases same : client = other
      · subst same
        have unchanged := tracked.known.unchanged
        subst unchanged
        have buffered := tracked.buffers record live
        refine ⟨known', Buffers.own before ?_, placed_answered tracked.placed⟩
        rcases handleFrame_eq before.tables sys client (before.session record) with
          ⟨stop, failed, left⟩ | ⟨res, sent, disconnect, _, onlySent, _, _, left⟩
        · rw [left] at ended ⊢
          rw [ended]
          exact buffered.stopped tracked.known live failed
        · rw [left] at ended ⊢
          have kept := buffered.consumed complete.2 onlySent disconnect
          rw [ended]
          cases disconnect with
          | true => exact kept
          | false => exact kept
      · refine apart same (handleFrame_traffic before.tables sys other (before.session record)) rfl
          (by simp [Ne.symm same]) ?_ (by simp)
        rw [ended]
        split <;> simp [Ne.symm same]

end

/-! ## Runs -/

theorem Within.tracked {tables : Tables World} {master : Fd} {tx : List Byte} {world : World}
    {mode : Mode} {server : HwioServer World}
    (within : Within (prepared tables master tx world) mode server) (client : ClientPtr) :
    Tracked tables (prepared tables master tx world).service client mode server := by
  refine @Within.moving _ _ _ _
    (Tracked tables (prepared tables master tx world).service client) within ?_
    fun sys before after mode mode' move => Move.tracked move
  exact {
    known := Reached.known .start
    buffers record live := by cases live
    placed := justified_singleton trivial }

/-- The bytes received for a connection, as they came. -/
def chunksOf (client : ClientPtr) (history : List Event) : List (List Byte) :=
  history.filterMap fun
    | .received owner _ _ bytes => if owner = client then some bytes else none
    | _ => none

/-- The chunks of the refills are those that were received. -/
theorem refillsOf_chunks (client : ClientPtr) (history : List Event) :
    (refillsOf client history).map Refill.chunk = (chunksOf client history).reverse := by
  suffices general : ∀ refills : List (Refill Byte),
      (history.foldl (refillStep client) refills).map Refill.chunk =
        (chunksOf client history).reverse ++ refills.map Refill.chunk by
    rw [refillsOf, general, List.map_nil, List.append_nil]
  induction history with
  | nil => exact fun refills => rfl
  | cons event rest inductionHypothesis =>
      intro refills
      rw [List.foldl_cons, inductionHypothesis]
      cases event with
      | received owner offset room bytes =>
          by_cases mine : owner = client
          · simp [refillStep, chunksOf, refill, mine]
          · simp [refillStep, chunksOf, mine]
      | handled owner disconnect =>
          have kept : ∀ refills : List (Refill Byte),
              (takeOff refills).map Refill.chunk = refills.map Refill.chunk := by
            intro refills
            cases refills <;> rfl
          by_cases mine : owner = client
          · simp [refillStep, chunksOf, kept, mine]
          · simp [refillStep, chunksOf, mine]
      | _ => rfl

theorem behindFrame_shorter (window : List Byte) (whole : ¬ NoFrame window) :
    (behindFrame window).length < window.length := by
  have holds : ¬ window.length < sizeofHeader := fun short => whole (Or.inl short)
  have kept : ∀ handled : List Byte, handled.length = window.length →
      (handled.drop (sizeofHeader + (HwioPacketHeader.at window 0).bodyLen.toNat)).length <
        window.length := by
    intro handled same
    rw [List.length_drop, same]
    simp only [sizeofHeader] at holds ⊢
    omega
  unfold behindFrame
  simp only
  split
  · exact kept _ (List.length_set ..)
  · exact kept _ rfl

/-- In every run, however its passes end, a copy that makes room in a receive
buffer has no byte in common between its source and its destination just when at
most half of what the buffer held behind the last read is left of it.  While the
requests of the connection return, what the buffer held and what is left of it is
told by the bytes that came: whole frames were taken off, and all of them. -/
theorem compaction_disjoint_iff {tables : Tables World} {master : Fd} {tx : List Byte}
    {world : World} {mode : Mode} {server : HwioServer World}
    (within : Within (prepared tables master tx world) mode server) {client : ClientPtr}
    {front back : List Event} {source count : Nat}
    (split : server.trace = front ++ .copied client source count :: back) :
    (Disjoint (Set.Ico source (source + count)) (Set.Ico 0 count) ↔
      AtMostHalf behindFrame (refillsOf client front)) ∧
    (Justified (Returns tables (prepared tables master tx world).service client) front →
      refillsOf client front = cut behindFrame NoFrame (chunksOf client front).reverse) := by
  obtain ⟨whole, rest, only, drained⟩ := (within.tracked client).placed front _ back split rfl
  refine ⟨disjoint_front_iff_atMostHalf whole rest, fun returns => ?_⟩
  rw [← refillsOf_chunks]
  exact eq_cut behindFrame_shorter (drained returns) only

/-- The run of a server whose client sends the same bytes twice. -/
def readTwice (bytes : List Byte) : HwioServer Unit :=
  (poolClientMsgs (loneClient bytes) (loneRun bareTables [] () bytes)).2

theorem readTwice_reached (bytes : List Byte) :
    Reached (prepared bareTables 3 [] ()) (readTwice bytes) :=
  .pass (loneRun_reached bareTables [] () bytes) _

/-- Behind two PINGs, two bytes of the next are moved. -/
theorem short_rest_disjoint :
    .copied 0 6 2 ∈ (readTwice [4, 0, 0, 4, 0, 0, 4, 0]).trace ∧
      Disjoint (Set.Ico 6 (6 + 2)) (Set.Ico 0 2) := by
  have split : (readTwice [4, 0, 0, 4, 0, 0, 4, 0]).trace =
      (readTwice [4, 0, 0, 4, 0, 0, 4, 0]).trace.take 13 ++
        .copied 0 6 2 :: (readTwice [4, 0, 0, 4, 0, 0, 4, 0]).trace.drop 14 := by
    decide +kernel
  have within : Within (prepared bareTables 3 [] ()) .idle (readTwice [4, 0, 0, 4, 0, 0, 4, 0]) :=
    ⟨loneClient [], _, readTwice_reached _, .refl⟩
  refine ⟨by decide +kernel, ((compaction_disjoint_iff within split).1).mpr ?_⟩
  decide +kernel

/-- Behind a PING, seven bytes of a WRITE are moved by three. -/
theorem long_rest_overlaps :
    Reached (prepared bareTables 3 [] ()) (readTwice [4, 0, 0, 3, 16, 0, 1, 0, 0, 0]) ∧
      .copied 0 3 7 ∈ (readTwice [4, 0, 0, 3, 16, 0, 1, 0, 0, 0]).trace ∧
      ¬ Disjoint (Set.Ico 3 (3 + 7)) (Set.Ico 0 7) := by
  refine ⟨readTwice_reached _, by decide +kernel, ?_⟩
  rw [disjoint_front_iff]
  decide

end HwioServer

end Hwio
