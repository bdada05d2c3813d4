import Hwio.Library.History
import Hwio.Server.Footprint

/-!
Contract: the frames that one connection reads off its receive buffer.

Owns the bytes received and the frames dispatched for a connection in a history,
the window of a receive buffer, and what a read and the handling of the buffered
frames do to them.

Does not own what happens to other connections.
-/

namespace Hwio

open Library

variable {World : Type}

/-! ## The stream of a connection -/

/-- The bytes that were received for a connection. -/
def receivedBy (client : ClientPtr) (history : List Event) : List Byte :=
  history.flatMap fun
    | .received owner _ _ bytes => if owner = client then bytes else []
    | _ => []

/-- The frames that were dispatched for a connection. -/
def dispatchedTo (client : ClientPtr) (history : List Event) : List Frame :=
  history.filterMap fun
    | .dispatched owner _ header rx =>
      if owner = client then some (Frame.received header rx) else none
    | _ => none

@[simp] theorem receivedBy_append (client : ClientPtr) (first second : List Event) :
    receivedBy client (first ++ second) = receivedBy client first ++ receivedBy client second :=
  List.flatMap_append

@[simp] theorem dispatchedTo_append (client : ClientPtr) (first second : List Event) :
    dispatchedTo client (first ++ second) =
      dispatchedTo client first ++ dispatchedTo client second :=
  List.filterMap_append

/-- The events that neither receive nor dispatch. -/
def Unstreamed : Event → Prop
  | .received _ _ _ _ | .dispatched _ _ _ _ => False
  | _ => True

theorem receivedBy_eq_nil {client : ClientPtr} {events : List Event}
    (other : ∀ event ∈ events, Unstreamed event) : receivedBy client events = [] := by
  refine List.flatMap_eq_nil_iff.mpr fun event member => ?_
  have quiet := other event member
  cases event <;> first | rfl | exact absurd quiet id

theorem dispatchedTo_eq_nil {client : ClientPtr} {events : List Event}
    (other : ∀ event ∈ events, Unstreamed event) : dispatchedTo client events = [] := by
  refine List.filterMap_eq_nil_iff.mpr fun event member => ?_
  have quiet := other event member
  cases event <;> first | rfl | exact absurd quiet id

/-- The bytes that were sent to a connection. -/
def sentTo (client : ClientPtr) (history : List Event) : List Byte :=
  history.flatMap fun
    | .sent owner bytes => if owner = client then bytes else []
    | _ => []

@[simp] theorem sentTo_append (client : ClientPtr) (first second : List Event) :
    sentTo client (first ++ second) = sentTo client first ++ sentTo client second :=
  List.flatMap_append

/-- The reply that a dispatched frame of a connection is answered with. -/
def replyTo (tables : Tables World) (service : Service World) (client : ClientPtr) :
    Event → List Byte
  | .dispatched owner _ header rx =>
    if owner = client then
      match handleMsg tables header (service.request client rx) with
      | (.ok res, ctx) => load ctx.tx 0 res.txSize
      | (.error _, _) => []
    else []
  | _ => []

/-- The replies to all frames that are dispatched for a connection. -/
def repliesTo (tables : Tables World) (service : Service World) (client : ClientPtr) :
    List Event → List Byte
  | [] => []
  | event :: rest =>
    replyTo tables service client event ++ repliesTo tables (service.step tables event) client rest

theorem repliesTo_append (tables : Tables World) (service : Service World) (client : ClientPtr)
    (first second : List Event) :
    repliesTo tables service client (first ++ second) =
      repliesTo tables service client first ++
        repliesTo tables (service.after tables first) client second := by
  induction first generalizing service with
  | nil => rfl
  | cons event rest inductionHypothesis =>
      rw [List.cons_append, repliesTo, repliesTo, inductionHypothesis, List.append_assoc]
      rfl

/-- The events that neither ask nor answer anything for a connection. -/
def Apart (client : ClientPtr) : Event → Prop
  | .dispatched owner _ _ _ | .sent owner _ => owner ≠ client
  | _ => True

theorem repliesTo_eq_nil {tables : Tables World} {client : ClientPtr} {events : List Event}
    (apart : ∀ event ∈ events, Apart client event) (service : Service World) :
    repliesTo tables service client events = [] := by
  induction events generalizing service with
  | nil => rfl
  | cons event rest inductionHypothesis =>
      have later := inductionHypothesis fun other member => apart other (List.mem_cons_of_mem _ member)
      have first : replyTo tables service client event = [] := by
        have none := apart event List.mem_cons_self
        cases event with
        | dispatched owner offset header rx => exact if_neg none
        | _ => rfl
      rw [repliesTo, first, later, List.append_nil]

theorem sentTo_eq_nil {client : ClientPtr} {events : List Event}
    (apart : ∀ event ∈ events, Apart client event) : sentTo client events = [] := by
  refine List.flatMap_eq_nil_iff.mpr fun event member => ?_
  have none := apart event member
  cases event with
  | sent owner bytes => exact if_neg none
  | _ => rfl

/-- The number of bytes that were received and not dispatched yet. -/
def unprocessed (client : ClientPtr) (history : List Event) : Nat :=
  (receivedBy client history).length - ((dispatchedTo client history).flatMap Frame.bytes).length

/-! ## Sane histories -/

/-- `handle_msg` returns, and leaves the bytes behind the frame as they are. -/
def Harmless (tables : Tables World) (start : Service World) (front : List Event) :
    Event → Prop
  | .dispatched client _ header rx =>
    let answer := handleMsg tables header ((start.after tables front).request client rx)
    let bodyLen := header.bodyLen.toNat
    let behind := unprocessed client front - (sizeofHeader + bodyLen)
    (∃ res, answer.1 = .ok res) ∧ load answer.2.rx bodyLen behind = load rx bodyLen behind
  | _ => True

/-- `Harmless` for the frames of one connection, as far as they are the frames
that were received. -/
def Tame (tables : Tables World) (start : Service World) (client : ClientPtr)
    (front : List Event) : Event → Prop
  | .dispatched owner _ header rx =>
    ∀ rest, owner = client →
      receivedBy client front =
        (dispatchedTo client front ++ [Frame.received header rx]).flatMap Frame.bytes ++ rest →
      let answer := handleMsg tables header ((start.after tables front).request client rx)
      (∃ res, answer.1 = .ok res) ∧
        load answer.2.rx header.bodyLen.toNat rest.length =
          load rx header.bodyLen.toNat rest.length
  | _ => True

theorem Harmless.tame {tables : Tables World} {start : Service World} {front : List Event}
    {event : Event} (harmless : Harmless tables start front event) (client : ClientPtr) :
    Tame tables start client front event := by
  cases event with
  | dispatched owner offset header rx =>
      rintro rest rfl stream
      have behind : unprocessed owner front - (sizeofHeader + header.bodyLen.toNat) =
          rest.length := by
        rw [unprocessed, stream]
        simp only [List.flatMap_append, List.flatMap_singleton, List.length_append, Frame.bytes,
          HwioPacketHeader.bytes_length, Frame.received_header, Frame.received_body, load_length]
        omega
      have here := harmless
      simp only [Harmless, behind] at here
      exact here
  | _ => exact trivial

/-- Every access that an event is about lies inside `RxBuffer::buffer`. -/
def Inside : Event → Prop
  | .copied _ source count => source + count ≤ rxBufferSize
  | .received _ offset room bytes => offset + room ≤ rxBufferSize ∧ bytes.length ≤ room
  | .dispatched _ offset header _ => offset + (sizeofHeader + header.bodyLen.toNat) ≤ rxBufferSize
  | _ => True

/-- What `handle_msg` reads and stores for a dispatched frame ends inside
`RxBuffer::buffer`. -/
def TouchesInside (tables : Tables World) (start : Service World) (front : List Event) :
    Event → Prop
  | .dispatched client offset header rx =>
    ∀ extent ∈ touched tables header ((start.after tables front).request client rx),
      extent.Ends (rxBufferSize - (offset + sizeofHeader))
  | _ => True

instance (tables : Tables World) (start : Service World) (front : List Event) :
    ∀ event, Decidable (TouchesInside tables start front event)
  | .dispatched .. => inferInstanceAs (Decidable (∀ extent ∈ touched _ _ _, extent.Ends _))
  | .opened _ | .accepted _ | .created .. | .visited _ | .copied .. | .received .. | .called ..
  | .sent .. | .handled .. | .removed _ | .closed _ | .readFreed _ => isTrue trivial

/-- No memory behind `RxBuffer::buffer` is read or changed by an event: for a
dispatched frame, `handle_msg` does the same whatever lies there, and leaves it. -/
def StaysInside (tables : Tables World) (start : Service World) (front : List Event)
    (event : Event) : Prop :=
  Inside event ∧
    match event with
    | .dispatched client offset header rx =>
      Enclosed tables header ((start.after tables front).request client rx)
        (rxBufferSize - (offset + sizeofHeader))
    | _ => True

theorem Inside.stays {tables : Tables World} {start : Service World} {front : List Event}
    {event : Event} (inside : Inside event) (touches : TouchesInside tables start front event) :
    StaysInside tables start front event := by
  refine ⟨inside, ?_⟩
  cases event with
  | dispatched client offset header rx => exact enclosed_of_touched touches
  | _ => exact trivial

/-- What is sent to a connection are its replies, all of them while it goes on. -/
def Replied (tables : Tables World) (start : Service World) (client : ClientPtr)
    (history : List Event) : Prop :=
  ∃ unsent, repliesTo tables start client history = sentTo client history ++ unsent ∧
    (.handled client true ∉ history → unsent = [])

theorem Replied.append_apart {tables : Tables World} {start : Service World} {client : ClientPtr}
    {history events : List Event} (replied : Replied tables start client history)
    (apart : ∀ event ∈ events, Apart client event) :
    Replied tables start client (history ++ events) := by
  obtain ⟨unsent, replies, whole⟩ := replied
  refine ⟨unsent, ?_, fun opened => whole fun old => opened (List.mem_append_left _ old)⟩
  rw [repliesTo_append, repliesTo_eq_nil apart, sentTo_append, sentTo_eq_nil apart,
    List.append_nil, List.append_nil, replies]

/-- What every history of reading and dispatching keeps for a connection. -/
structure Sane (tables : Tables World) (start : Service World) (client : ClientPtr)
    (history : List Event) : Prop where
  inside : ∀ event ∈ history, HwioServer.actor event = some client → Inside event
  replied : ∃ unsent, repliesTo tables start client history = sentTo client history ++ unsent ∧
    (.handled client true ∉ history → unsent = [])

/-- Events that dispatch nothing and stay inside the buffer. -/
theorem Sane.append_apart {tables : Tables World} {start : Service World} {client : ClientPtr}
    {history events : List Event} (sane : Sane tables start client history)
    (inside : ∀ event ∈ events, HwioServer.actor event = some client → Inside event)
    (apart : ∀ event ∈ events, Apart client event) :
    Sane tables start client (history ++ events) where
  inside event member := by
    rcases List.mem_append.mp member with old | new
    · exact sane.inside event old
    · exact inside event new
  replied := Replied.append_apart sane.replied apart

/-! ## One connection -/

/-- The bytes that are buffered and not dispatched. -/
def RxBuffer.window (rx : RxBuffer) : List Byte := load rx.buffer rx.currPtr rx.currLen

@[simp] theorem RxBuffer.window_length (rx : RxBuffer) : rx.window.length = rx.currLen :=
  load_length ..

/-- The buffer of a connection holds what its history left unprocessed, and
the state behind it is the one that its history tells. -/
structure Streaming (tables : Tables World) (start : Service World) (client : ClientPtr)
    (session : Session World) : Prop where
  follows : ∀ rx, (start.after tables session.trace).request client rx =
    { session.request with rx := rx }
  bound : session.client.rxBuffer.currPtr + session.client.rxBuffer.currLen ≤ rxBufferSize
  stream : receivedBy client session.trace =
    (dispatchedTo client session.trace).flatMap Frame.bytes ++ session.client.rxBuffer.window
  sane : Sane tables start client session.trace

/-! ## Reading -/

namespace HwioServer

/-- The bytes of the window, moved to the front of the buffer when they are not
there. -/
theorem movedWindow (rx : RxBuffer) :
    load (if (decide (0 < rx.currLen) && decide (rx.currPtr ≠ 0)) = true then
      copyUp rx.buffer 0 rx.currPtr rx.currLen else rx.buffer) 0 rx.currLen = rx.window := by
  split
  · exact load_copyUp_target rx.buffer (Nat.zero_le _) rx.currLen
  next still =>
    have unmoved : rx.currLen = 0 ∨ rx.currPtr = 0 := by
      simp only [Bool.and_eq_true, decide_eq_true_eq, not_and, Decidable.not_not] at still
      by_cases empty : rx.currLen = 0
      · exact Or.inl empty
      · exact Or.inr (still (Nat.pos_of_ne_zero empty))
    unfold RxBuffer.window
    rcases unmoved with empty | front
    · rw [empty, load_zero, load_zero]
    · rw [front]

/-- What comes is stored behind the window that was moved to the front. -/
theorem window_received {rx : RxBuffer} {buffer : List Byte}
    (window : load buffer 0 rx.currLen = rx.window) (bytes : List Byte) :
    RxBuffer.window ⟨store buffer rx.currLen bytes, 0, rx.currLen + bytes.length⟩ =
      rx.window ++ bytes := by
  show load (store buffer rx.currLen bytes) 0 (rx.currLen + bytes.length) = _
  rw [load_add, load_store_apart _ (Or.inl (Nat.le_of_eq (Nat.zero_add _))), Nat.zero_add,
    load_store_same, window]

/-- How reading ends: the window is copied to the front when it is not there,
and bytes that come are stored behind it. -/
theorem readFromSocket_eq (sys : Sys) (client : ClientPtr) (session : Session World) :
    let rx := session.client.rxBuffer
    ∃ copies buffer, load buffer 0 rx.currLen = rx.window ∧
      (copies = [] ∨
        copies = [.copied client rx.currPtr rx.currLen] ∧ 0 < rx.currLen ∧ rx.currPtr ≠ 0) ∧
      ((∃ bytes, bytes.length ≤ rxBufferSize - rx.currLen ∧
        readFromSocket sys client session = (true, { session with
          client := { session.client with
            rxBuffer := ⟨store buffer rx.currLen bytes, 0, rx.currLen + bytes.length⟩ }
          trace := session.trace ++ copies ++
            [.received client rx.currLen (rxBufferSize - rx.currLen) bytes] })) ∨
      readFromSocket sys client session = (false, { session with
        client := { session.client with rxBuffer := ⟨buffer, 0, rx.currLen⟩ }
        trace := session.trace ++ copies })) := by
  intro rx
  -- the copy, if any, is the first new event
  obtain ⟨copies, traced, copied⟩ : ∃ copies,
      (if (decide (0 < rx.currLen) && decide (rx.currPtr ≠ 0)) = true then
        session.trace ++ [.copied client rx.currPtr rx.currLen] else session.trace) =
          session.trace ++ copies ∧
      (copies = [] ∨
        copies = [.copied client rx.currPtr rx.currLen] ∧ 0 < rx.currLen ∧ rx.currPtr ≠ 0) := by
    split
    next moved =>
      rw [Bool.and_eq_true, decide_eq_true_eq, decide_eq_true_eq] at moved
      exact ⟨_, rfl, Or.inr ⟨rfl, moved⟩⟩
    next => exact ⟨[], (List.append_nil _).symm, Or.inl rfl⟩
  refine ⟨copies, _, movedWindow rx, copied, ?_⟩
  unfold readFromSocket
  simp only [rx] at traced ⊢
  rw [traced]
  split
  next bytes received => exact Or.inl ⟨bytes, (sys.recv_bounds _ _ _ bytes received).2, rfl⟩
  next => exact Or.inr rfl

/-- Reading appends what came to the window, wherever that lies. -/
theorem readFromSocket_streaming {tables : Tables World} {start : Service World}
    {client : ClientPtr} {session : Session World} (sys : Sys)
    (streaming : Streaming tables start client session) :
    Streaming tables start client (readFromSocket sys client session).2 ∧
      ((readFromSocket sys client session).1 = false →
        (readFromSocket sys client session).2.client.rxBuffer.window =
          session.client.rxBuffer.window) ∧
      (.handled client true ∉ session.trace →
        .handled client true ∉ (readFromSocket sys client session).2.trace) := by
  obtain ⟨follows, bound, stream, sane⟩ := streaming
  have silent : ∀ events : List Event, (∀ event ∈ events, Progress client event) →
      ∀ rx, (start.after tables (session.trace ++ events)).request client rx =
        { session.request with rx := rx } := by
    intro events progress rx
    rw [Service.after_append, Progress.silent progress]
    exact follows rx
  obtain ⟨moved, buffer, window, copied, ended⟩ := readFromSocket_eq sys client session
  have copies : ∀ event ∈ moved, event = .copied client session.client.rxBuffer.currPtr
      session.client.rxBuffer.currLen := by
    intro event member
    rcases copied with rfl | ⟨rfl, _⟩
    · cases member
    · exact List.mem_singleton.mp member
  have progress : ∀ event ∈ moved, Progress client event := by
    intro event member
    rw [copies event member]
    exact .copied _ _
  have unstreamed : ∀ event ∈ moved, Unstreamed event := by
    intro event member
    rw [copies event member]
    exact trivial
  have sane' : Sane tables start client (session.trace ++ moved) := by
    apply sane.append_apart
    · intro event member _
      rw [copies event member]
      exact bound
    · intro event member
      rw [copies event member]
      exact trivial
  have unhandled : .handled client true ∉ session.trace →
      .handled client true ∉ session.trace ++ moved := by
    intro open' member
    rcases List.mem_append.mp member with old | new
    · exact open' old
    · cases copies _ new
  rcases ended with ⟨bytes, fits, read⟩ | read
  · rw [read]
    refine ⟨⟨?_, ?_, ?_, ?_⟩, ?_, ?_⟩
    · intro rx
      rw [List.append_assoc]
      refine silent _ (fun event member => ?_) rx
      rcases List.mem_append.mp member with copy | last
      · exact progress event copy
      · rw [List.mem_singleton.mp last]
        exact .received _ _ _
    · show 0 + (session.client.rxBuffer.currLen + bytes.length) ≤ rxBufferSize
      omega
    · have appended := window_received window bytes
      simp only
      rw [appended, receivedBy_append, receivedBy_append, dispatchedTo_append,
        dispatchedTo_append, receivedBy_eq_nil unstreamed, dispatchedTo_eq_nil unstreamed, stream]
      simp [receivedBy, dispatchedTo]
    · apply sane'.append_apart
      · intro event member _
        rw [List.mem_singleton.mp member]
        refine ⟨?_, fits⟩
        omega
      · intro event member
        rw [List.mem_singleton.mp member]
        exact trivial
    · intro never
      cases never
    · intro open' member
      rcases List.mem_append.mp member with old | new
      · exact unhandled open' old
      · cases List.mem_singleton.mp new
  · rw [read]
    refine ⟨⟨silent moved progress, ?_, ?_, sane'⟩, fun _ => window, unhandled⟩
    · show 0 + session.client.rxBuffer.currLen ≤ rxBufferSize
      omega
    · have same : RxBuffer.window ⟨buffer, 0, session.client.rxBuffer.currLen⟩ =
          session.client.rxBuffer.window := window
      simp only
      rw [same, receivedBy_append, dispatchedTo_append, receivedBy_eq_nil unstreamed,
        dispatchedTo_eq_nil unstreamed, List.append_nil, List.append_nil]
      exact stream

/-! ## Handling a frame -/

/-- The window begins with the frame that is dispatched. -/
theorem window_eq_frame {rx : RxBuffer} (complete : rx.msgLen ≤ rx.currLen) :
    rx.window = (Frame.received (HwioPacketHeader.at rx.buffer rx.currPtr)
      (rx.buffer.drop (rx.currPtr + sizeofHeader))).bytes ++
        load rx.buffer (rx.currPtr + rx.msgLen) (rx.currLen - rx.msgLen) := by
  have lengths : rx.currLen = rx.msgLen + (rx.currLen - rx.msgLen) := by omega
  unfold RxBuffer.window
  conv_lhs => rw [lengths]
  rw [load_add]
  congr 1
  rw [Frame.bytes, Frame.received_header, Frame.received_body, HwioPacketHeader.bytes_at, load_drop,
    Nat.add_zero, RxBuffer.msgLen, load_add]

/-- Before the buffered bytes make up a frame, the window is incomplete. -/
theorem incomplete_iff {rx : RxBuffer} :
    Incomplete sizeofHeader Frame.size rx.window ↔
      rx.currLen < sizeofHeader ∨ rx.currLen < rx.msgLen := by
  unfold Incomplete
  rw [RxBuffer.window_length]
  by_cases short : rx.currLen < sizeofHeader
  · simp [short]
  · have header : HwioPacketHeader.at (rx.window.take sizeofHeader) 0 =
        HwioPacketHeader.at rx.buffer rx.currPtr := by
      apply HwioPacketHeader.at_of_load
      rw [RxBuffer.window, load_take _ _ (Nat.le_of_not_lt short), HwioPacketHeader.bytes_at,
        load_load _ (Nat.le_of_eq (Nat.zero_add _)), Nat.add_zero]
    rw [Frame.size, header, RxBuffer.msgLen]

theorem unstreamed_answer {client : ClientPtr} {later : List Event}
    (unstreamed : ∀ event ∈ later, Unstreamed event) (calls : List Call) :
    ∀ event ∈ calls.map (.called client) ++ later, Unstreamed event := by
  intro event member
  rcases List.mem_append.mp member with call | last
  · exact forall_called (fun _ => trivial) calls event call
  · exact unstreamed event last

/-- An answered request receives nothing and dispatches one frame. -/
theorem receivedBy_answer {client : ClientPtr} {later : List Event}
    (unstreamed : ∀ event ∈ later, Unstreamed event) (offset : Nat) (header : HwioPacketHeader)
    (rx : List Byte) (calls : List Call) :
    receivedBy client (answerEvents client offset header rx calls later) = [] := by
  show receivedBy client (calls.map (.called client) ++ later) = []
  exact receivedBy_eq_nil (unstreamed_answer unstreamed calls)

theorem dispatchedTo_answer {client : ClientPtr} {later : List Event}
    (unstreamed : ∀ event ∈ later, Unstreamed event) (offset : Nat) (header : HwioPacketHeader)
    (rx : List Byte) (calls : List Call) :
    dispatchedTo client (answerEvents client offset header rx calls later) =
      [Frame.received header rx] := by
  have none : dispatchedTo client (calls.map (.called client) ++ later) = [] :=
    dispatchedTo_eq_nil (unstreamed_answer unstreamed calls)
  have one : dispatchedTo client [.dispatched client offset header rx] =
      [Frame.received header rx] := by
    simp [dispatchedTo]
  unfold answerEvents
  rw [← List.singleton_append, dispatchedTo_append, one, none]
  rfl

/-- The service behind an answered request is what `handle_msg` left. -/
theorem request_after_answer {tables : Tables World} {service : Service World}
    {client : ClientPtr} {session : Session World} {offset : Nat} {header : HwioPacketHeader}
    {later : List Event} (progress : ∀ event ∈ later, Progress client event)
    (same : service.request client session.request.rx = session.request)
    {outcome : Except Stop PProcRes} {ctx : Ctx World}
    (handling : handleMsg tables header session.request = (outcome, ctx)) (rx : List Byte) :
    (service.after tables (answerEvents client offset header session.request.rx ctx.calls
      later)).request client rx =
        { rx := rx, tx := ctx.tx, devices := ctx.devices, world := ctx.world, calls := [] } := by
  have silent : ∀ service : Service World,
      service.after tables (ctx.calls.map (Event.called client) ++ later) = service := by
    intro service
    rw [Service.after_append, Progress.silent progress]
    apply Service.after_of_silent
    exact forall_called (fun _ _ => rfl) ctx.calls
  show ((Service.step tables service (.dispatched client offset header session.request.rx)).after
    tables _).request client rx = _
  rw [silent, Service.step, same, handling]
  simp only [Service.request, Service.answered, Function.update_self, Option.getD_some]

/-- Only what was sent to the connection counts in such events. -/
theorem sentTo_eq_sentIn {client : ClientPtr} {events : List Event}
    (onlySent : ∀ event ∈ events, ∃ part, event = .sent client part) :
    sentTo client events = sentIn events := by
  refine List.flatMap_congr fun event member => ?_
  obtain ⟨part, rfl⟩ := onlySent event member
  exact if_pos rfl

theorem repliesTo_sent {tables : Tables World} {service : Service World} {client : ClientPtr}
    {events : List Event} (onlySent : ∀ event ∈ events, ∃ part, event = .sent client part) :
    repliesTo tables service client events = [] := by
  induction events generalizing service with
  | nil => rfl
  | cons event rest inductionHypothesis =>
      obtain ⟨part, rfl⟩ := onlySent event List.mem_cons_self
      rw [repliesTo, inductionHypothesis fun other member => onlySent other
        (List.mem_cons_of_mem _ member)]
      rfl

/-- The answer to a request, or as much of it as could be sent, follows what was
sent before. -/
theorem Replied.append_answer {tables : Tables World} {start : Service World}
    {client : ClientPtr} {history : List Event} (replied : Replied tables start client history)
    (opened : .handled client true ∉ history) (offset : Nat) {header : HwioPacketHeader}
    {rx : List Byte} {res : PProcRes} {ctx : Ctx World}
    (answer : handleMsg tables header ((start.after tables history).request client rx) =
      (.ok res, ctx))
    {sent : List Event} (onlySent : ∀ event ∈ sent, ∃ part, event = .sent client part)
    (front : sentIn sent <+: load ctx.tx 0 res.txSize) {disconnect : Bool}
    (decided : disconnect = false ↔
      res.disconnect = false ∧ sentIn sent = load ctx.tx 0 res.txSize) :
    Replied tables start client (history ++ answerEvents client offset header rx ctx.calls
      (sent ++ [.handled client disconnect])) := by
  obtain ⟨unsent, replies, whole⟩ := replied
  obtain ⟨back, split⟩ := front
  have calls : ∀ event ∈ ctx.calls.map (Event.called client), Apart client event :=
    forall_called (fun _ => trivial) _
  have reply : repliesTo tables (start.after tables history) client (answerEvents client
      offset header rx ctx.calls (sent ++ [.handled client disconnect])) =
        load ctx.tx 0 res.txSize := by
    have none : ∀ service : Service World, repliesTo tables service client
        (ctx.calls.map (Event.called client) ++ (sent ++ [.handled client disconnect])) =
          [] := by
      intro service
      rw [repliesTo_append, repliesTo_eq_nil calls, List.nil_append, repliesTo_append,
        repliesTo_sent onlySent]
      rfl
    rw [answerEvents, repliesTo, none, List.append_nil, replyTo, if_pos rfl, answer]
  have bytes : sentTo client (answerEvents client offset header rx ctx.calls
      (sent ++ [.handled client disconnect])) = sentIn sent := by
    show sentTo client (ctx.calls.map (Event.called client) ++
      (sent ++ [.handled client disconnect])) = _
    rw [sentTo_append, sentTo_eq_nil calls, List.nil_append, sentTo_append,
      sentTo_eq_sentIn onlySent]
    exact List.append_nil _
  refine ⟨back, ?_, fun still => ?_⟩
  · rw [repliesTo_append, replies, whole opened, List.append_nil, reply, sentTo_append, bytes,
      List.append_assoc, split]
  · have goesOn : disconnect = false := by
      cases disconnect with
      | false => rfl
      | true =>
          refine absurd ?_ still
          simp [answerEvents]
    have all := (decided.mp goesOn).2
    rw [all] at split
    exact List.append_cancel_left (split.trans (List.append_nil _).symm)

/-- The events of a frame that is answered while a connection is open. -/
theorem Sane.append_answer {tables : Tables World} {start : Service World} {client : ClientPtr}
    {history : List Event} (sane : Sane tables start client history)
    (opened : .handled client true ∉ history) {offset : Nat} {header : HwioPacketHeader}
    {rx : List Byte} (inside : offset + (sizeofHeader + header.bodyLen.toNat) ≤ rxBufferSize)
    {res : PProcRes} {ctx : Ctx World}
    (answer : handleMsg tables header ((start.after tables history).request client rx) =
      (.ok res, ctx))
    {sent : List Event} (onlySent : ∀ event ∈ sent, ∃ part, event = .sent client part)
    (front : sentIn sent <+: load ctx.tx 0 res.txSize) {disconnect : Bool}
    (decided : disconnect = false ↔
      res.disconnect = false ∧ sentIn sent = load ctx.tx 0 res.txSize) :
    Sane tables start client (history ++ answerEvents client offset header rx ctx.calls
      (sent ++ [.handled client disconnect])) := by
  exact {
    inside event member := by
      rcases List.mem_append.mp member with old | new
      · exact sane.inside event old
      · intro _
        rcases List.mem_cons.mp new with rfl | between
        · exact inside
        · exact forall_answer (fun _ => trivial) (fun _ => trivial) trivial _ onlySent event between
    replied := Replied.append_answer sane.replied opened offset answer onlySent front decided }

/-- Taking an answered frame off the buffer leaves what `handle_msg` left behind
it. -/
theorem consumed_window_eq (client : ClientPtr) (session : Session World) (ctx : Ctx World)
    (events : List Event) :
    (session.consumed client ctx events).client.rxBuffer.window =
      load ctx.rx (HwioPacketHeader.at session.client.rxBuffer.buffer
        session.client.rxBuffer.currPtr).bodyLen.toNat
        (session.client.rxBuffer.currLen - session.client.rxBuffer.msgLen) := by
  have behind : session.client.rxBuffer.currPtr + session.client.rxBuffer.msgLen =
      (session.client.rxBuffer.buffer.takeD
        (session.client.rxBuffer.currPtr + sizeofHeader) 0).length +
          (HwioPacketHeader.at session.client.rxBuffer.buffer
            session.client.rxBuffer.currPtr).bodyLen.toNat := by
    rw [List.takeD_length, RxBuffer.msgLen, Nat.add_assoc]
  show load ((session.client.rxBuffer.buffer.takeD
      (session.client.rxBuffer.currPtr + sizeofHeader) 0) ++ ctx.rx)
    (session.client.rxBuffer.currPtr + session.client.rxBuffer.msgLen)
    (session.client.rxBuffer.currLen - session.client.rxBuffer.msgLen) = _
  rw [behind, load_append_right]

/-- It leaves the bytes behind the frame, when `handle_msg` did. -/
theorem consumed_window {client : ClientPtr} {session : Session World} {ctx : Ctx World}
    (events : List Event)
    (unharmed : load ctx.rx (HwioPacketHeader.at session.client.rxBuffer.buffer
        session.client.rxBuffer.currPtr).bodyLen.toNat
        (session.client.rxBuffer.currLen - session.client.rxBuffer.msgLen) =
      load session.request.rx (HwioPacketHeader.at session.client.rxBuffer.buffer
        session.client.rxBuffer.currPtr).bodyLen.toNat
        (session.client.rxBuffer.currLen - session.client.rxBuffer.msgLen)) :
    (session.consumed client ctx events).client.rxBuffer.window =
      load session.client.rxBuffer.buffer
        (session.client.rxBuffer.currPtr + session.client.rxBuffer.msgLen)
        (session.client.rxBuffer.currLen - session.client.rxBuffer.msgLen) := by
  calc (session.consumed client ctx events).client.rxBuffer.window
      = load ctx.rx _ _ := consumed_window_eq client session ctx events
    _ = load session.request.rx _ _ := unharmed
    _ = _ := by rw [Session.request, load_drop, RxBuffer.msgLen, Nat.add_assoc]

/-- A complete frame is dispatched from the front of the window, answered, and
taken off the window. -/
theorem handleFrame_streaming {tables : Tables World} {start : Service World}
    {client : ClientPtr} {session : Session World} (sys : Sys)
    (streaming : Streaming tables start client session)
    (opened : .handled client true ∉ session.trace)
    (complete : session.client.rxBuffer.msgLen ≤ session.client.rxBuffer.currLen)
    (tame : Tame tables start client session.trace (.dispatched client
      session.client.rxBuffer.currPtr (HwioPacketHeader.at session.client.rxBuffer.buffer
        session.client.rxBuffer.currPtr) session.request.rx)) :
    ∃ disconnect, (handleFrame tables sys client session).1 = .ok disconnect ∧
      Streaming tables start client (handleFrame tables sys client session).2 ∧
      (.handled client true ∈ (handleFrame tables sys client session).2.trace ↔
        disconnect = true) := by
  obtain ⟨follows, bound, stream, sane⟩ := streaming
  have window := window_eq_frame complete
  obtain ⟨⟨res, ok⟩, unharmed⟩ := tame (load session.client.rxBuffer.buffer
      (session.client.rxBuffer.currPtr + session.client.rxBuffer.msgLen)
      (session.client.rxBuffer.currLen - session.client.rxBuffer.msgLen)) rfl (by
    rw [stream, window, List.flatMap_append, List.flatMap_singleton, List.append_assoc]
    rfl)
  rw [load_length] at unharmed
  have same : (start.after tables session.trace).request client session.request.rx =
      session.request := follows _
  rw [same] at ok unharmed
  rcases handleFrame_eq tables sys client session with
    ⟨stop, failed, _⟩ | ⟨result, sent, disconnect, returned, onlySent, front, decided, left⟩
  · rw [failed] at ok
    cases ok
  rcases handling : handleMsg tables (HwioPacketHeader.at session.client.rxBuffer.buffer
    session.client.rxBuffer.currPtr) session.request with ⟨outcome, ctx⟩
  rw [handling] at returned front decided left unharmed
  simp only at returned
  subst returned
  have progress : ∀ event ∈ sent ++ [.handled client disconnect], Progress client event :=
    forall_sent Progress.sent (.handled _) onlySent
  have unstreamed : ∀ event ∈ sent ++ [.handled client disconnect], Unstreamed event :=
    forall_sent (fun _ => trivial) trivial onlySent
  have traced : (session.consumed client ctx (sent ++ [.handled client disconnect])).trace =
      session.trace ++ answerEvents client session.client.rxBuffer.currPtr
        (HwioPacketHeader.at session.client.rxBuffer.buffer session.client.rxBuffer.currPtr)
        session.request.rx ctx.calls (sent ++ [.handled client disconnect]) := by
    simp only [Session.consumed, Session.afterMsg, answerEvents, List.append_assoc,
      List.cons_append]
  refine ⟨disconnect, by rw [left], ?_, ?_⟩
  · rw [left]
    exact {
      follows rx := by
        rw [traced, Service.after_append]
        exact request_after_answer progress same handling rx
      bound := by
        show session.client.rxBuffer.currPtr + session.client.rxBuffer.msgLen +
          (session.client.rxBuffer.currLen - session.client.rxBuffer.msgLen) ≤ rxBufferSize
        omega
      stream := by
        rw [consumed_window _ unharmed, traced, receivedBy_append, dispatchedTo_append,
          dispatchedTo_answer unstreamed, receivedBy_answer unstreamed, stream, window,
          List.flatMap_append, List.append_nil, List.flatMap_singleton, List.append_assoc]
        rfl
      sane := by
        rw [traced]
        refine Sane.append_answer sane opened ?_ (by rw [same]; exact handling) onlySent front decided
        show session.client.rxBuffer.currPtr + session.client.rxBuffer.msgLen ≤ _
        omega }
  · rw [left, traced, List.mem_append, or_iff_right opened]
    unfold answerEvents
    constructor
    · intro member
      rcases List.mem_cons.mp member with same' | later
      · cases same'
      rcases List.mem_append.mp later with call | last
      · obtain ⟨made, _, same'⟩ := List.mem_map.mp call
        cases same'
      rcases List.mem_append.mp last with part | end'
      · obtain ⟨bytes, same'⟩ := onlySent _ part
        cases same'
      · cases List.mem_singleton.mp end'
        rfl
    · intro ends
      simp [ends]

end HwioServer

end Hwio
