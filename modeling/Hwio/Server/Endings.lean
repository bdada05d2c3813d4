import Hwio.Server.Containment
import Hwio.Server.LaterFrames

/-!
Contract: where a pass ends that a request does not return from.

Owns that all requests of a pass that returns did return, and that nothing is
asked behind a request that did not.

Does not own why a request does not return.
-/

namespace Hwio

open Library

variable {World : Type}

/-- All requests of a history returned. -/
def Faultless (tables : Tables World) (start : Service World) (history : List Event) : Prop :=
  Justified (fun front event => ∀ client, Returns tables start client front event) history

/-- Nothing is asked behind a request that did not return. -/
def Interrupted (tables : Tables World) (start : Service World) (history : List Event) : Prop :=
  ∃ front event back, history = front ++ event :: back ∧ Faultless tables start front ∧
    ∀ other ∈ back, Unstreamed other

/-- All requests returned, but perhaps the last one of a call that did not. -/
def Closes {Result : Type} (tables : Tables World) (start : Service World)
    (ran : Except Stop Result) (history : List Event) : Prop :=
  Faultless tables start history ∨
    (∃ stop, ran = .error stop) ∧ Interrupted tables start history

/-- The events that ask nothing. -/
def Unasked : Event → Prop
  | .dispatched _ _ _ _ => False
  | _ => True

section

variable {tables : Tables World} {start : Service World} {history events : List Event}

theorem Faultless.append (faultless : Faultless tables start history)
    (unasked : ∀ event ∈ events, Unasked event) : Faultless tables start (history ++ events) := by
  apply Justified.append_free faultless
  intro event member front client
  have quiet := unasked event member
  cases event with
  | dispatched owner offset header rx => exact absurd quiet id
  | _ => trivial

/-- A request that returned, and what is done behind it. -/
theorem Faultless.append_request (faultless : Faultless tables start history) {event : Event}
    (returned : ∀ client, Returns tables start client history event)
    (unasked : ∀ event ∈ events, Unasked event) :
    Faultless tables start (history ++ event :: events) := by
  have first : Faultless tables start (history ++ [event]) := Justified.snoc faultless returned
  have all := first.append unasked
  rwa [List.append_assoc, List.singleton_append] at all

theorem Closes.of_faultless {Result : Type} {ran : Except Stop Result}
    (faultless : Faultless tables start history) : Closes tables start ran history :=
  Or.inl faultless

theorem Closes.faultless {Result : Type} {result : Result}
    (closes : Closes tables start (.ok result) history) : Faultless tables start history := by
  rcases closes with faultless | ⟨⟨stop, failed⟩, _⟩
  · exact faultless
  · cases failed

/-- A call that does not return is not returned from further out. -/
theorem Closes.error {Result Other : Type} {stop : Stop} (other : Stop)
    (closes : Closes tables start (.error stop : Except Stop Result) history) :
    Closes tables start (.error other : Except Stop Other) history :=
  closes.imp id fun interrupted => ⟨⟨other, rfl⟩, interrupted.2⟩

end

namespace HwioServer

variable {tables : Tables World} {start : Service World} {sys : Sys}
variable {server : HwioServer World}

theorem Idle.unasked {event : Event} (idle : Idle event) : Unasked event := by
  cases event <;> first | exact absurd idle id | trivial

theorem note_faultless {event : Event} (notice : Notice event)
    (faultless : Faultless tables start server.trace) :
    Faultless tables start (note event server).trace := by
  apply faultless.append
  intro other member
  exact List.mem_singleton.mp member ▸ notice.idle.unasked

theorem removeClient_faultless (socket : Fd)
    (faultless : Faultless tables start server.trace) :
    Faultless tables start (removeClient socket server).2.trace := by
  unfold removeClient
  split
  · exact faultless
  split
  · exact faultless
  next client _ _ record _ =>
    split
    · exact faultless.append fun event member =>
        (idle_closeOnDelete client record.fd event member).unasked
    · exact faultless

theorem addNewClient_faultless (socket : Fd) (faultless : Faultless tables start server.trace) :
    Faultless tables start (addNewClient sys socket server).2.trace := by
  have made : Faultless tables start (allocClient sys socket server).trace := by
    apply faultless.append
    intro event member
    exact List.mem_singleton.mp member ▸ trivial
  unfold addNewClient
  simp only
  split
  · exact made
  · exact made

theorem clientOf_faultless (socket : Fd) (faultless : Faultless tables start server.trace) :
    Faultless tables start (clientOf sys socket server).2.trace := by
  unfold clientOf
  split
  · exact addNewClient_faultless socket faultless
  · exact faultless

theorem readFromSocket_faultless {client : ClientPtr} {session : Session World}
    (faultless : Faultless tables start session.trace) :
    Faultless tables start (readFromSocket sys client session).2.trace := by
  obtain ⟨events, trace, quiet⟩ := readFromSocket_events sys client session
  rw [trace]
  apply faultless.append
  intro event member
  rcases quiet event member with ⟨source, count, rfl⟩ | ⟨offset, room, bytes, rfl⟩
  · exact trivial
  · exact trivial

/-- A frame is either handled, or nothing is asked behind it. -/
theorem handleFrame_closes (sys : Sys) {client : ClientPtr} {session : Session World}
    (request : (start.after tables session.trace).request client session.request.rx =
      session.request)
    (faultless : Faultless tables start session.trace) :
    Closes tables start (handleFrame tables sys client session).1
      (handleFrame tables sys client session).2.trace := by
  rcases handleFrame_eq tables sys client session with
    ⟨stop, failed, left⟩ | ⟨res, sent, disconnect, ok, onlySent, front, decided, left⟩
  · rw [left]
    right
    exact ⟨⟨stop, rfl⟩, session.trace, _, _, rfl, faultless, forall_called (fun _ => trivial) _⟩
  · rw [left]
    left
    simp only [Session.consumed, Session.afterMsg, List.append_assoc, List.cons_append]
    apply faultless.append_request
    · rintro owner rfl
      rw [request]
      exact ⟨res, ok⟩
    · exact forall_answer (fun _ => trivial) (fun _ => trivial) trivial _ onlySent

/-- What the end of the loop over the frames means for its caller. -/
def LoopEnd.result : LoopEnd → Except Stop Unit
  | .stopped stop => .error stop
  | _ => .ok ()

theorem parseLoop_closes {client : ClientPtr} {fuel : Nat} {session : Session World}
    (known : Known tables start (server.putSession client session))
    (faultless : Faultless tables start session.trace) :
    Closes tables start (LoopEnd.result (parseLoop server.tables sys client fuel session).1)
      (parseLoop server.tables sys client fuel session).2.trace := by
  induction fuel generalizing session with
  | zero => exact .of_faultless faultless
  | succ fuel inductionHypothesis =>
      obtain rfl : server.tables = tables := known.unchanged
      have live := putSession_heap server client session
      rw [parseLoop]
      by_cases header : session.client.rxBuffer.currLen < sizeofHeader
      · rw [if_pos header]
        exact .of_faultless faultless
      rw [if_neg header]
      by_cases body : session.client.rxBuffer.currLen < session.client.rxBuffer.msgLen
      · rw [if_pos body]
        exact .of_faultless faultless
      rw [if_neg body]
      have request := known.request live session.request.rx
      have closes := handleFrame_closes sys request faultless
      have moved : Move sys _ _ _ _ := .answered client session.client live
        ⟨Nat.le_of_not_lt header, Nat.le_of_not_lt body⟩ _ rfl
      have known' := Move.known moved known
      rw [session_putSession, putSession_putSession] at known'
      change Known server.tables start (server.putSession client
        (handleFrame server.tables sys client session).2) at known'
      rcases handling : handleFrame server.tables sys client session with ⟨result, after⟩
      rw [handling] at closes known'
      cases result with
      | error stop => exact Closes.error stop closes
      | ok disconnect =>
          cases disconnect with
          | true => exact .of_faultless closes.faultless
          | false => exact inductionHypothesis known' closes.faultless

theorem parseMsgs_closes {client : ClientPtr} {session : Session World}
    (known : Known tables start (server.putSession client session))
    (faultless : Faultless tables start session.trace) :
    let ran := parseMsgs sys client session (server.putSession client session)
    Closes tables start ran.1 ran.2.trace := by
  intro ran
  have closes := @parseLoop_closes _ _ _ sys _ client session.client.rxBuffer.currLen session known
    faultless
  simp only [ran]
  unfold parseMsgs
  simp only [show (server.putSession client session).tables = server.tables from rfl,
    putSession_putSession]
  rcases loop : parseLoop server.tables sys client session.client.rxBuffer.currLen session with
    ⟨ended, after⟩
  rw [loop] at closes
  cases ended with
  | waiting => exact closes
  | stopped stop => exact closes
  | disconnect =>
      have removed := @removeClient_faultless _ _ _ (server.putSession client after)
        after.client.fd closes.faultless
      simp only
      rcases removal : removeClient after.client.fd (server.putSession client after) with
        ⟨result, left⟩
      rw [removal] at removed
      cases result with
      | error stop => exact .of_faultless removed
      | ok done => exact .of_faultless (@note_faultless _ _ _ _ (.readFreed client) trivial removed)

theorem handleMultipleClientRequests_closes (socket : Fd) (known : Known tables start server)
    (faultless : Faultless tables start server.trace) :
    Closes tables start (handleMultipleClientRequests sys socket server).1
      (handleMultipleClientRequests sys socket server).2.trace := by
  have found := @clientOf_faultless _ _ _ sys _ socket faultless
  have moved := Moves.known (clientOf_moves sys socket server) known
  unfold handleMultipleClientRequests
  rcases owner : clientOf sys socket server with ⟨result, owned⟩
  rw [owner] at found moved
  cases result with
  | error stop => exact .of_faultless found
  | ok client =>
      simp only
      split
      next => exact .of_faultless found
      next record live =>
        by_cases same : record.fd = socket
        case neg =>
          rw [if_neg same]
          exact .of_faultless found
        rw [if_pos same]
        have read := @readFromSocket_faultless _ _ _ sys client (owned.session record) found
        have received := @Move.received _ sys owned client record live
        rcases reading : readFromSocket sys client (owned.session record) with ⟨came, session⟩
        rw [reading] at read received
        cases came with
        | true => exact parseMsgs_closes (Move.known (received rfl) moved) read
        | false =>
            have removed := @removeClient_faultless _ _ _ (owned.putSession client session)
              socket read
            simp only
            rcases removal : removeClient socket (owned.putSession client session) with
              ⟨result, last⟩
            rw [removal] at removed
            cases result with
            | error stop => exact .of_faultless removed
            | ok done => exact .of_faultless removed

theorem visit_closes (fd : Fd) (revents : UInt16) (known : Known tables start server)
    (faultless : Faultless tables start server.trace) :
    Closes tables start (visit sys fd revents server).1 (visit sys fd revents server).2.trace := by
  unfold visit
  split
  · exact .of_faultless faultless
  simp only
  have visited := @note_faultless _ _ _ _ (.visited fd) trivial faultless
  have known' : Known tables start (note (.visited fd) server) :=
    @Move.known _ _ _ sys _ _ _ _ (.noted (.visited fd) trivial) known
  generalize note (.visited fd) server = server at visited known'
  split
  · split
    · exact .of_faultless visited
    · have removed := removeClient_faultless fd visited
      rcases removal : removeClient fd server with ⟨result, left⟩
      rw [removal] at removed
      cases result with
      | error stop => exact .of_faultless removed
      | ok done => exact .of_faultless removed
  · split
    · split
      · exact .of_faultless visited
      · rename_i socket _
        have accepted := @note_faultless _ _ _ _ (.accepted socket) trivial visited
        have added := @addNewClient_faultless _ _ _ sys _ socket accepted
        rcases addition : addNewClient sys socket (note (.accepted socket) server) with
          ⟨result, left⟩
        rw [addition] at added
        cases result with
        | error stop => exact .of_faultless added
        | ok client => exact .of_faultless added
    · exact handleMultipleClientRequests_closes fd known' visited

theorem visitAll_closes (polled : List (Fd × UInt16)) (known : Known tables start server)
    (faultless : Faultless tables start server.trace) :
    Closes tables start (visitAll sys polled server).1 (visitAll sys polled server).2.trace := by
  induction polled generalizing server with
  | nil => exact .of_faultless faultless
  | cons head rest inductionHypothesis =>
      have closes := @visit_closes _ _ _ sys _ head.1 head.2 known faultless
      have known' := Moves.known (visit_moves sys head.1 head.2 server) known
      rw [visitAll]
      rcases visiting : visit sys head.1 head.2 server with ⟨result, left⟩
      rw [visiting] at closes known'
      cases result with
      | error stop => exact Closes.error stop closes
      | ok done => exact inductionHypothesis known' closes.faultless

/-- A pass that returns leaves no request, and one that does not asks nothing
behind the request that it leaves. -/
theorem poolClientMsgs_closes (known : Known tables start server)
    (faultless : Faultless tables start server.trace) :
    Closes tables start (poolClientMsgs sys server).1 (poolClientMsgs sys server).2.trace := by
  unfold poolClientMsgs
  split
  · exact .of_faultless faultless
  · exact .of_faultless faultless
  · exact .of_faultless faultless
  · rename_i revents _
    have closes := @visitAll_closes _ _ _ sys _
      (server.pollFds.mapIdx fun index fd => (fd, revents index)) known faultless
    rcases visiting :
      visitAll sys (server.pollFds.mapIdx fun index fd => (fd, revents index)) server with
      ⟨result, left⟩
    rw [visiting] at closes
    cases result with
    | error stop => exact Closes.error stop closes
    | ok done => exact .of_faultless closes.faultless

end HwioServer

end Hwio
