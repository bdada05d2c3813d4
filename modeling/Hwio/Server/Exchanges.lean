import Mathlib.Data.List.Induction
import Hwio.Server.LaterFrames
import Hwio.Server.ReplyFrame

/-!
Contract: the requests of one connection, each with the state that it met, and
the bytes that were sent for it.

Owns the list of requests of a history, that the bytes sent to a connection are
the replies to its requests in their order, and that these requests are the
frames that the client sent, as long as `handle_msg` returns.

Does not own what a client makes of the replies.
-/

namespace Hwio

open Library

variable {World : Type}

/-! ## Requests -/

/-- The request of a connection that an event dispatches. -/
def requestOf (service : Service World) (client : ClientPtr) :
    Event → List (HwioPacketHeader × Ctx World)
  | .dispatched owner _ header rx =>
    if owner = client then [(header, service.request client rx)] else []
  | _ => []

theorem requestOf_cases (service : Service World) (client : ClientPtr) (event : Event) :
    requestOf service client event = [] ∨
      ∃ request, requestOf service client event = [request] := by
  cases event with
  | dispatched owner offset header rx =>
      rw [requestOf]
      split
      · exact Or.inr ⟨_, rfl⟩
      · exact Or.inl rfl
  | _ => exact Or.inl rfl

/-- The requests of a connection, with the states that they met. -/
def requestsOf (tables : Tables World) (service : Service World) (client : ClientPtr) :
    List Event → List (HwioPacketHeader × Ctx World)
  | [] => []
  | event :: rest =>
    requestOf service client event ++
      requestsOf tables (service.step tables event) client rest

/-- The bytes that a request is answered with. -/
def answerTo (tables : Tables World) (request : HwioPacketHeader × Ctx World) : List Byte :=
  replyBytes (handleMsg tables request.1 request.2)

/-- The frame of a request. -/
def frameOf (request : HwioPacketHeader × Ctx World) : Frame :=
  Frame.received request.1 request.2.rx

theorem requestsOf_append (tables : Tables World) (service : Service World) (client : ClientPtr)
    (first second : List Event) :
    requestsOf tables service client (first ++ second) =
      requestsOf tables service client first ++
        requestsOf tables (service.after tables first) client second := by
  induction first generalizing service with
  | nil => rfl
  | cons event rest before =>
      rw [List.cons_append, requestsOf, requestsOf, before, List.append_assoc]
      rfl

/-- The replies to a connection are the answers to its requests. -/
theorem repliesTo_eq (tables : Tables World) (service : Service World) (client : ClientPtr)
    (events : List Event) :
    repliesTo tables service client events =
      (requestsOf tables service client events).flatMap (answerTo tables) := by
  induction events generalizing service with
  | nil => rfl
  | cons event rest before =>
      rw [repliesTo, requestsOf, List.flatMap_append, before]
      congr 1
      cases event with
      | dispatched owner offset header rx =>
          by_cases own : owner = client
          · rw [replyTo, requestOf, if_pos own, if_pos own, List.flatMap_singleton]
            rfl
          · rw [replyTo, requestOf, if_neg own, if_neg own]
            rfl
      | _ => rfl

theorem dispatchedTo_eq (tables : Tables World) (service : Service World) (client : ClientPtr)
    (events : List Event) :
    dispatchedTo client events = (requestsOf tables service client events).map frameOf := by
  induction events generalizing service with
  | nil => rfl
  | cons event rest before =>
      rw [requestsOf, List.map_append, ← before, ← List.singleton_append, dispatchedTo_append]
      congr 1
      cases event with
      | dispatched owner offset header rx =>
          by_cases own : owner = client
          · simp [dispatchedTo, requestOf, frameOf, Service.request, own]
          · simp [dispatchedTo, requestOf, own]
      | _ => rfl

/-- The last request of a history that has any. -/
theorem last_request {tables : Tables World} {service : Service World} {client : ClientPtr}
    {history : List Event} (asked : requestsOf tables service client history ≠ []) :
    ∃ front offset header rx back,
      history = front ++ .dispatched client offset header rx :: back ∧
        requestsOf tables service client history =
          requestsOf tables service client front ++
            [(header, (service.after tables front).request client rx)] := by
  induction history using List.reverseRecOn with
  | nil => exact absurd rfl asked
  | append_singleton earlier event before =>
      have split := requestsOf_append tables service client earlier [event]
      by_cases own : ∃ offset header rx, event = .dispatched client offset header rx
      · obtain ⟨offset, header, rx, rfl⟩ := own
        refine ⟨earlier, offset, header, rx, [], rfl, split.trans ?_⟩
        rw [requestsOf, requestOf, if_pos rfl]
        rfl
      · have none : requestsOf tables (service.after tables earlier) client [event] = [] := by
          cases event with
          | dispatched owner offset header rx =>
              have other : owner ≠ client := fun same => own ⟨offset, header, rx, by rw [same]⟩
              rw [requestsOf, requestOf, if_neg other]
              rfl
          | _ => rfl
        rw [none, List.append_nil] at split
        have ⟨front, offset, header, rx, back, whole, last⟩ := before (split ▸ asked)
        exact ⟨front, offset, header, rx, back ++ [event], by
          rw [whole, List.append_assoc, List.cons_append], split.trans last⟩

theorem mem_requestsOf_iff {tables : Tables World} {service : Service World}
    {client : ClientPtr} {history : List Event} {header : HwioPacketHeader} {ctx : Ctx World} :
    (header, ctx) ∈ requestsOf tables service client history ↔
      Requested tables service history client header ctx := by
  induction history generalizing service with
  | nil =>
      apply iff_of_false (List.not_mem_nil)
      rintro ⟨front, offset, rx, back, split, _⟩
      cases front <;> cases split
  | cons event rest before =>
      rw [requestsOf, List.mem_append, before, ← List.singleton_append, requested_append_iff]
      apply or_congr
      · constructor
        · intro member
          cases event with
          | dispatched owner offset other rx =>
              rw [requestOf] at member
              split at member
              · next own =>
                obtain ⟨rfl, rfl⟩ := Prod.mk.inj (List.mem_singleton.mp member)
                exact ⟨[], offset, rx, [], by rw [own]; rfl, rfl⟩
              · cases member
          | _ => cases member
        · rintro ⟨front, offset, rx, back, split, rfl⟩
          obtain ⟨rfl, rest⟩ | ⟨_, none⟩ := List.singleton_eq_append_iff.mp split
          · obtain ⟨rfl, _⟩ := List.cons.inj rest
            rw [requestOf, if_pos rfl]
            exact List.mem_cons_self
          · cases none
      · rfl

/-- No call was made for a request before it is handled. -/
theorem calls_eq_nil_of_mem {tables : Tables World} {service : Service World}
    {client : ClientPtr} {history : List Event} {header : HwioPacketHeader} {ctx : Ctx World}
    (member : (header, ctx) ∈ requestsOf tables service client history) : ctx.calls = [] := by
  obtain ⟨_, _, _, _, _, rfl⟩ := mem_requestsOf_iff.mp member
  rfl

/-- `handle_msg` returns from a request. -/
def Returned (tables : Tables World) (request : HwioPacketHeader × Ctx World) : Prop :=
  ∃ res, (handleMsg tables request.1 request.2).1 = .ok res

theorem returns_of_returned {tables : Tables World} {service : Service World}
    {client : ClientPtr} {history : List Event}
    (returned : ∀ request ∈ requestsOf tables service client history, Returned tables request) :
    Justified (Returns tables service client) history := by
  intro front event back split
  cases event with
  | dispatched owner offset header rx =>
      rintro rfl
      apply returned (header, (service.after tables front).request owner rx)
      rw [split, requestsOf_append, requestsOf, requestOf, if_pos rfl]
      exact List.mem_append_right _ (List.mem_append_left _ List.mem_cons_self)
  | _ => exact trivial

/-- The replies to a connection begin with what was sent to it. -/
theorem Replied.prefix_sentTo {tables : Tables World} {service : Service World}
    {client : ClientPtr} {history : List Event}
    (replied : Replied tables service client history) :
    sentTo client history <+:
      (requestsOf tables service client history).flatMap (answerTo tables) := by
  have ⟨unsent, replies, _⟩ := replied
  rw [← repliesTo_eq, replies]
  exact List.prefix_append _ _

namespace HwioServer

/-! ## What is sent in a run -/

variable {tables : Tables World} {start : Service World} {sys : Sys} {client : ClientPtr}
variable {before after : HwioServer World} {mode mode' : Mode}

theorem Idle.apart {event : Event} (idle : Idle event) : Apart client event := by
  cases event <;> first | exact absurd idle id | trivial

theorem apart_of_actor {event : Event} (other : actor event ≠ some client) :
    Apart client event := by
  cases event <;> first | trivial | exact fun same => other (congrArg some same)

/-- Handling a frame of an open connection sends its answer, or nothing when
`handle_msg` does not return. -/
theorem handleFrame_replied (sys : Sys) {session : Session World}
    (request : (start.after tables session.trace).request client session.request.rx =
      session.request)
    (opened : .handled client true ∉ session.trace)
    (replied : Replied tables start client session.trace) :
    Replied tables start client (handleFrame tables sys client session).2.trace := by
  rcases handling : handleMsg tables (HwioPacketHeader.at session.client.rxBuffer.buffer
    session.client.rxBuffer.currPtr) session.request with ⟨result, ctx⟩
  rcases handleFrame_eq tables sys client session with
    ⟨stop, failed, left⟩ | ⟨res, sent, disconnect, ok, onlySent, front, decided, left⟩
  · rw [handling] at failed left
    rw [left]
    have ⟨unsent, replies, whole⟩ := replied
    have calls : ∀ event ∈ ctx.calls.map (Event.called client), Apart client event :=
      forall_called (fun _ => trivial) _
    have none : repliesTo tables (start.after tables session.trace) client
        (.dispatched client session.client.rxBuffer.currPtr (HwioPacketHeader.at
          session.client.rxBuffer.buffer session.client.rxBuffer.currPtr) session.request.rx ::
            ctx.calls.map (.called client)) = [] := by
      rw [repliesTo, repliesTo_eq_nil calls, replyTo, if_pos rfl, request, handling]
      simp only at failed
      rw [failed]
      rfl
    refine ⟨unsent, ?_, fun still => whole fun old => still (List.mem_append_left _ old)⟩
    show repliesTo tables start client (session.trace ++ _) =
      sentTo client (session.trace ++ .dispatched .. :: _) ++ unsent
    rw [repliesTo_append, none, List.append_nil, replies, sentTo_append]
    congr 1
    exact (List.append_nil _).symm.trans (congrArg _ (sentTo_eq_nil calls).symm)
  · rw [handling] at ok left front decided
    rw [left]
    simp only at ok
    subst ok
    have answered := Replied.append_answer replied opened session.client.rxBuffer.currPtr
      (by rw [request]; exact handling) onlySent front decided
    simpa only [Session.consumed, Session.afterMsg, answerEvents, List.append_assoc,
      List.cons_append] using answered

theorem readFromSocket_replied (sys : Sys) {other : ClientPtr} {session : Session World}
    (replied : Replied tables start client session.trace) :
    Replied tables start client (readFromSocket sys other session).2.trace := by
  obtain ⟨events, trace, quiet⟩ := readFromSocket_events sys other session
  rw [trace]
  apply replied.append_apart
  intro event member
  rcases quiet event member with ⟨source, count, rfl⟩ | ⟨offset, room, bytes, rfl⟩
  · exact trivial
  · exact trivial

/-- What is sent to a connection are its replies, whatever the moves are. -/
theorem Move.replied (move : Move sys before mode mode' after)
    (known : Known tables start before) (ended : Ended mode before)
    (replied : Replied tables start client before.trace) :
    Replied tables start client after.trace := by
  cases move with
  | noted event notice =>
      apply replied.append_apart
      intro other member
      exact List.mem_singleton.mp member ▸ notice.idle.apart
  | allocated socket =>
      apply replied.append_apart
      intro other member
      exact List.mem_singleton.mp member ▸ trivial
  | listed socket other => exact replied
  | queued fd => exact replied
  | cleaned => exact replied
  | waits other record live incomplete => exact replied
  | dropped other record live =>
      exact replied.append_apart fun event member =>
        (idle_closeOnDelete other record.fd event member).apart
  | removed other record live =>
      exact replied.append_apart fun event member =>
        (idle_closeOnDelete other record.fd event member).apart
  | received other record live came => exact readFromSocket_replied sys replied
  | failed other record live came => exact readFromSocket_replied sys replied
  | answered other record live complete _ result =>
      have unchanged := known.unchanged
      subst unchanged
      by_cases own : other = client
      · subst own
        apply handleFrame_replied sys (known.request live _) _ replied
        exact fun handled => nomatch ended.gone other record live handled
      · obtain ⟨events, trace, apart⟩ :=
          (handleFrame_traffic before.tables sys other (before.session record)).trace
        show Replied _ start client (handleFrame _ sys other (before.session record)).2.trace
        rw [trace]
        apply replied.append_apart
        intro event member
        apply apart_of_actor
        rw [(apart event member).2]
        exact fun same => own (Option.some.inj same)

theorem Reached.replied {tables : Tables World} {master : Fd} {tx : List Byte} {world : World}
    {server : HwioServer World} (reached : Reached (prepared tables master tx world) server)
    (client : ClientPtr) :
    Replied tables (prepared tables master tx world).service client server.trace := by
  have kept := @Reached.moving _ _ _ (fun mode server =>
    Known tables (prepared tables master tx world).service server ∧ Ended mode server ∧
      Replied tables (prepared tables master tx world).service client server.trace) reached
  refine (kept ⟨Reached.known .start, Reached.answers_ended .start |>.2, [], rfl,
    fun _ => rfl⟩ ?_).2.2
  rintro sys before after mode mode' move ⟨known, ended, replied⟩
  exact ⟨Move.known move known, Move.ended move known ended, Move.replied move known ended replied⟩

/-- When all requests of a connection but the last one return, they are the
first ones of the frames that the client sent. -/
theorem Reached.dispatched_prefix {tables : Tables World} {master : Fd} {tx : List Byte}
    {world : World} {server : HwioServer World}
    (reached : Reached (prepared tables master tx world) server) (client : ClientPtr)
    {frames : List Frame} (spares : ∀ frame ∈ frames, Spares frame)
    (sent : receivedBy client server.trace <+: frames.flatMap Frame.bytes)
    (returned : ∀ request ∈ (requestsOf tables (prepared tables master tx world).service client
      server.trace).dropLast, Returned tables request) :
    (requestsOf tables (prepared tables master tx world).service client server.trace).map
      frameOf <+: frames := by
  by_cases asked : requestsOf tables (prepared tables master tx world).service client
    server.trace = []
  · rw [asked]
    exact List.nil_prefix
  have ⟨front, offset, header, rx, back, whole, last⟩ := last_request asked
  rw [last, List.dropLast_concat] at returned
  have first := reached.dispatched_front client spares sent whole (returns_of_returned returned)
  rw [last, List.map_append, ← dispatchedTo_eq]
  exact first

end HwioServer

end Hwio
