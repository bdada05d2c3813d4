import Hwio.Server.Poll

/-!
Contract: what reading and answering leave of one connection.

Owns the events of one connection, and what `read_from_socket` and the handling
of a frame do to its session.

Does not own the loop over the frames of a buffer.
-/

namespace Hwio

open Library

variable {World : Type}

/-- A connection whose frame was answered and taken off the buffer. -/
def Session.consumed (ptr : ClientPtr) (session : Session World) (ctx : Ctx World)
    (events : List Event) : Session World :=
  let rx := session.client.rxBuffer
  let after := session.afterMsg ptr ctx
  { after with
    client := { after.client with
      rxBuffer := { after.client.rxBuffer with
        currPtr := rx.currPtr + rx.msgLen
        currLen := rx.currLen - rx.msgLen } }
    trace := after.trace ++ events }

namespace HwioServer

/-! ## The events of sending and receiving -/

/-- The connection that an event is an act of. -/
def actor : Event → Option ClientPtr
  | .created client _ => some client
  | .copied client _ _ => some client
  | .received client _ _ _ => some client
  | .dispatched client _ _ _ => some client
  | .called client _ => some client
  | .sent client _ => some client
  | .handled client _ => some client
  | .removed client => some client
  | _ => none

/-- The events that only report the bytes and the progress of one connection. -/
inductive Progress (client : ClientPtr) : Event → Prop
  | copied (source count : Nat) : Progress client (.copied client source count)
  | received (offset room : Nat) (bytes : List Byte) :
      Progress client (.received client offset room bytes)
  | sent (bytes : List Byte) : Progress client (.sent client bytes)
  | handled (disconnect : Bool) : Progress client (.handled client disconnect)

theorem Progress.actor_eq {client : ClientPtr} {event : Event} (progress : Progress client event) :
    actor event = some client := by
  cases progress <;> rfl

/-- The events that an answered request appends. -/
def answerEvents (client : ClientPtr) (offset : Nat) (header : HwioPacketHeader) (rx : List Byte)
    (calls : List Call) (later : List Event) : List Event :=
  .dispatched client offset header rx :: (calls.map (.called client) ++ later)

/-- The only request among these events is the first of them. -/
theorem dispatched_in_answer {client other : ClientPtr} {later : List Event}
    (progress : ∀ event ∈ later, Progress client event) {offset offset' : Nat}
    {header header' : HwioPacketHeader} {rx rx' : List Byte} {calls : List Call}
    {front back : List Event}
    (split : answerEvents client offset header rx calls later =
      front ++ .dispatched other offset' header' rx' :: back) :
    front = [] ∧ other = client ∧ offset' = offset ∧ header' = header ∧ rx' = rx ∧
      back = calls.map (.called client) ++ later := by
  cases front with
  | nil =>
      cases split
      exact ⟨rfl, rfl, rfl, rfl, rfl, rfl⟩
  | cons head tail =>
      have member : .dispatched other offset' header' rx' ∈ calls.map (.called client) ++ later := by
        have rest := (List.cons.inj split).2
        rw [rest]
        exact List.mem_append_right _ List.mem_cons_self
      rcases List.mem_append.mp member with call | last
      · obtain ⟨made, _, same⟩ := List.mem_map.mp call
        cases same
      · cases progress _ last

/-- The bytes that some events sent, in order. -/
def sentIn (events : List Event) : List Byte :=
  events.flatMap fun
    | .sent _ bytes => bytes
    | _ => []

@[simp] theorem sentIn_append (first second : List Event) :
    sentIn (first ++ second) = sentIn first ++ sentIn second :=
  List.flatMap_append

section

variable {Property : Event → Prop} {client : ClientPtr} {sent : List Event} {disconnect : Bool}

/-- What holds of each call holds of the calls of a request. -/
theorem forall_called (called : ∀ call, Property (.called client call)) (calls : List Call) :
    ∀ event ∈ calls.map (.called client), Property event :=
  List.forall_mem_map.mpr fun call _ => called call

/-- What holds of each part of a reply and of the end of the handling holds of
the events behind the calls of a request. -/
theorem forall_sent (part : ∀ bytes, Property (.sent client bytes))
    (handled : Property (.handled client disconnect))
    (onlySent : ∀ event ∈ sent, ∃ part, event = .sent client part) :
    ∀ event ∈ sent ++ [.handled client disconnect], Property event := by
  intro event member
  rcases List.mem_append.mp member with early | last
  · obtain ⟨bytes, rfl⟩ := onlySent event early
    exact part bytes
  · rw [List.mem_singleton.mp last]
    exact handled

/-- What holds of all these events holds of an answer. -/
theorem forall_answer (called : ∀ call, Property (.called client call))
    (part : ∀ bytes, Property (.sent client bytes))
    (handled : Property (.handled client disconnect)) (calls : List Call)
    (onlySent : ∀ event ∈ sent, ∃ part, event = .sent client part) :
    ∀ event ∈ calls.map (.called client) ++ (sent ++ [.handled client disconnect]),
      Property event :=
  List.forall_mem_append.mpr ⟨forall_called called calls, forall_sent part handled onlySent⟩

end

@[simp] theorem sentIn_calls (client : ClientPtr) (calls : List Call) :
    sentIn (calls.map (.called client)) = [] :=
  List.flatMap_eq_nil_iff.mpr (forall_called (fun _ => rfl) calls)

/-- `send` only adds events of bytes from the front of the reply, and tells
whether these are all. -/
theorem sendReply_trace (sys : Sys) (fd : Fd) (client : ClientPtr) (fuel : Nat)
    (bytes : List Byte) (trace : List Event) :
    ∃ events, (sendReply sys fd client fuel bytes trace).2 = trace ++ events ∧
      (∀ event ∈ events, ∃ part, event = .sent client part) ∧ sentIn events <+: bytes ∧
      ((sendReply sys fd client fuel bytes trace).1 = true ↔ sentIn events = bytes) := by
  induction fuel generalizing bytes trace with
  | zero =>
      refine ⟨[], ?_, by simp, List.nil_prefix, ?_⟩
      · cases bytes <;> simp [sendReply]
      · cases bytes <;> simp [sendReply, sentIn]
  | succ fuel inductionHypothesis =>
      cases bytes with
      | nil =>
          exact ⟨[], by simp [sendReply], by simp, List.nil_prefix, by simp [sendReply, sentIn]⟩
      | cons byte rest =>
          rw [sendReply]
          split
          · exact ⟨[], by simp, by simp, List.nil_prefix, by simp [sentIn]⟩
          · rename_i count _
            obtain ⟨events, appended, onlySent, front, whole⟩ := inductionHypothesis
              ((byte :: rest).drop count) (trace ++ [.sent client ((byte :: rest).take count)])
            have parts := List.take_append_drop count (byte :: rest)
            refine ⟨.sent client ((byte :: rest).take count) :: events, ?_, ?_, ?_, ?_⟩
            · rw [appended, List.append_assoc, List.singleton_append]
            · intro event member
              rcases List.mem_cons.mp member with same | later
              · exact ⟨_, same⟩
              · exact onlySent event later
            · show (byte :: rest).take count ++ sentIn events <+: byte :: rest
              obtain ⟨back, whole'⟩ := front
              exact ⟨back, by rw [List.append_assoc, whole', parts]⟩
            · rw [whole]
              show _ ↔ (byte :: rest).take count ++ sentIn events = byte :: rest
              constructor
              · intro left
                rw [left, parts]
              · intro all
                exact List.append_cancel_left (all.trans parts.symm)

/-- What reading from the socket does to a session. -/
theorem readFromSocket_session (sys : Sys) (client : ClientPtr) (session : Session World) :
    ∃ events rxBuffer, (readFromSocket sys client session).2 =
        { session with
          client := { session.client with rxBuffer := rxBuffer }
          trace := session.trace ++ events } ∧
      ∀ event ∈ events, Progress client event := by
  unfold readFromSocket
  simp only
  by_cases moved : (decide (0 < session.client.rxBuffer.currLen) &&
      decide (session.client.rxBuffer.currPtr ≠ 0)) = true
  · simp only [moved, if_true]
    split
    · refine ⟨[.copied client _ _, .received client _ _ _], _, by
        rw [List.append_assoc]
        rfl, ?_⟩
      intro event member
      rcases List.mem_cons.mp member with rfl | member
      · exact .copied _ _
      · rw [List.mem_singleton.mp member]
        exact .received _ _ _
    · refine ⟨[.copied client _ _], _, rfl, ?_⟩
      intro event member
      rw [List.mem_singleton.mp member]
      exact .copied _ _
  · simp only [moved, if_false, Bool.false_eq_true]
    split
    · refine ⟨[.received client _ _ _], _, rfl, ?_⟩
      intro event member
      rw [List.mem_singleton.mp member]
      exact .received _ _ _
    · exact ⟨[], _, by rw [List.append_nil], by simp⟩

/-- Reading only copies and receives. -/
theorem readFromSocket_events (sys : Sys) (client : ClientPtr) (session : Session World) :
    ∃ events, (readFromSocket sys client session).2.trace = session.trace ++ events ∧
      ∀ event ∈ events, (∃ source count, event = .copied client source count) ∨
        ∃ offset room bytes, event = .received client offset room bytes := by
  have copied : ∀ moved : Bool, ∃ events,
      (if moved then session.trace ++ [.copied client session.client.rxBuffer.currPtr
        session.client.rxBuffer.currLen] else session.trace) = session.trace ++ events ∧
      ∀ event ∈ events, ∃ source count, event = .copied client source count := by
    intro moved
    cases moved with
    | true => exact ⟨_, rfl, by simp⟩
    | false => exact ⟨[], (List.append_nil _).symm, by simp⟩
  obtain ⟨events, trace, only⟩ := copied (decide (0 < session.client.rxBuffer.currLen) &&
    decide (session.client.rxBuffer.currPtr ≠ 0))
  unfold readFromSocket
  simp only [trace]
  split
  · refine ⟨events ++ [.received client _ _ _], List.append_assoc .., fun event member => ?_⟩
    rcases List.mem_append.mp member with old | new
    · exact Or.inl (only event old)
    · exact Or.inr ⟨_, _, _, List.mem_singleton.mp new⟩
  · exact ⟨events, rfl, fun event member => Or.inl (only event member)⟩

/-- Reading ends no handling. -/
theorem readFromSocket_handled (sys : Sys) (client other : ClientPtr) (session : Session World)
    (disconnect : Bool) :
    .handled other disconnect ∈ (readFromSocket sys client session).2.trace ↔
      .handled other disconnect ∈ session.trace := by
  obtain ⟨events, trace, only⟩ := readFromSocket_events sys client session
  rw [trace, List.mem_append]
  constructor
  · rintro (old | new)
    · exact old
    · rcases only _ new with ⟨_, _, same⟩ | ⟨_, _, _, same⟩
      · cases same
      · cases same
  · exact Or.inl

/-- How the handling of a frame ends: with what `handle_msg` did not return
from, or with the part of the reply that was sent and the frame taken off the
buffer. -/
theorem handleFrame_eq (tables : Tables World) (sys : Sys) (client : ClientPtr)
    (session : Session World) :
    let rx := session.client.rxBuffer
    let answer := handleMsg tables (HwioPacketHeader.at rx.buffer rx.currPtr) session.request
    (∃ stop, answer.1 = .error stop ∧
      handleFrame tables sys client session = (.error stop, session.afterMsg client answer.2)) ∨
    ∃ res sent disconnect, answer.1 = .ok res ∧
      (∀ event ∈ sent, ∃ part, event = .sent client part) ∧
      sentIn sent <+: load answer.2.tx 0 res.txSize ∧
      (disconnect = false ↔
        res.disconnect = false ∧ sentIn sent = load answer.2.tx 0 res.txSize) ∧
      handleFrame tables sys client session =
        (.ok disconnect,
          session.consumed client answer.2 (sent ++ [.handled client disconnect])) := by
  intro rx answer
  unfold handleFrame
  rcases handling : handleMsg tables (HwioPacketHeader.at rx.buffer rx.currPtr) session.request
    with ⟨result, ctx⟩
  have same : answer = (result, ctx) := handling
  rw [same]
  simp only [rx] at handling
  simp only [handling]
  cases result with
  | error stop => exact Or.inl ⟨stop, rfl, rfl⟩
  | ok res =>
      right
      obtain ⟨sent, appended, onlySent, front, whole⟩ := sendReply_trace sys session.client.fd
        client res.txSize (load ctx.tx 0 res.txSize) (session.afterMsg client ctx).trace
      rcases sending : sendReply sys session.client.fd client res.txSize
        (load ctx.tx 0 res.txSize) (session.afterMsg client ctx).trace with ⟨sentAll, trace⟩
      rw [sending] at appended whole
      simp only at appended whole
      refine ⟨res, sent, res.disconnect || !sentAll, rfl, onlySent, front, ?_, ?_⟩
      · rw [← whole]
        cases res.disconnect <;> cases sentAll <;> simp
      · simp only [sending, appended, Session.consumed, List.append_assoc]

/-- What a handled frame does to a session: it is dispatched, and everything
else is what `handle_msg` left. -/
theorem handleFrame_session (tables : Tables World) (sys : Sys) (client : ClientPtr)
    (session : Session World) :
    let header := HwioPacketHeader.at session.client.rxBuffer.buffer
      session.client.rxBuffer.currPtr
    let ctx := (handleMsg tables header session.request).2
    ∃ events rxBuffer, (handleFrame tables sys client session).2 =
        { client := { session.client with rxBuffer := rxBuffer, devices := ctx.devices }
          txBuffer := ctx.tx
          world := ctx.world
          trace := session.trace ++ .dispatched client session.client.rxBuffer.currPtr header
            session.request.rx :: (ctx.calls.map (.called client) ++ events) } ∧
      ∀ event ∈ events, Progress client event := by
  intro header ctx
  rcases handleFrame_eq tables sys client session with
    ⟨stop, _, left⟩ | ⟨res, sent, disconnect, _, onlySent, _, _, left⟩
  · rw [left]
    refine ⟨[], (session.afterMsg client ctx).client.rxBuffer, ?_, by simp⟩
    rw [List.append_nil]
    rfl
  · rw [left]
    refine ⟨sent ++ [.handled client disconnect],
      (session.consumed client ctx []).client.rxBuffer, ?_, ?_⟩
    · simp only [Session.consumed, Session.afterMsg, List.append_assoc, List.cons_append]
      rfl
    · exact forall_sent Progress.sent (.handled _) onlySent

theorem handleFrame_currLen (tables : Tables World) (sys : Sys) (client : ClientPtr)
    (session : Session World) {disconnect : Bool}
    (ok : (handleFrame tables sys client session).1 = .ok disconnect) :
    (handleFrame tables sys client session).2.client.rxBuffer.currLen =
      session.client.rxBuffer.currLen - session.client.rxBuffer.msgLen := by
  rcases handleFrame_eq tables sys client session with
    ⟨stop, _, left⟩ | ⟨res, sent, other, _, _, _, _, left⟩
  · rw [left] at ok
    cases ok
  · rw [left]
    rfl

theorem msgLen_pos (rx : RxBuffer) : 0 < rx.msgLen :=
  Nat.lt_of_lt_of_le (by decide) (Nat.le_add_right sizeofHeader _)

end HwioServer

end Hwio
