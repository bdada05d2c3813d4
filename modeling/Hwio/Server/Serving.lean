import Hwio.Server.Containment
import Hwio.Server.Reassembly

/-!
Contract: passes that serve one client.

Owns the system that has bytes for one descriptor and takes every reply, what a
pass does there, and that it ends well unless a request stops it or ends its
connection.

Does not own which requests do.
-/

namespace Hwio

open Library

variable {World : Type}

namespace HwioServer

/-- What waits at a descriptor, or its end. -/
def received (bytes : List Byte) (room : Nat) : RecvRes :=
  if bytes.take room = [] then .failed else .data (bytes.take room)

/-- Everything is taken. -/
def taken (reply : List Byte) : SendRes :=
  if reply = [] then .failed else .sent reply.length

theorem received_bounds {bytes data : List Byte} {room : Nat}
    (got : received bytes room = .data data) : data ≠ [] ∧ data.length ≤ room := by
  unfold received at got
  split at got
  · cases got
  · next some =>
    cases got
    exact ⟨some, List.length_take_le _ _⟩

theorem taken_pos {reply : List Byte} {count : Nat} (whole : taken reply = .sent count) :
    0 < count := by
  unfold taken at whole
  split at whole
  · cases whole
  · next some =>
    cases whole
    exact List.length_pos_iff.mpr some

/-- One descriptor is ready, some bytes wait at it, and every reply is taken
at once. -/
def delivering (fd : Fd) (bytes : List Byte) : Sys where
  ppoll _ fds := .ready fun index => fds[index]?.elim 0 fun polled => if polled = fd then 1 else 0
  accept _ := none
  recv _ _ room := received bytes room
  send _ _ reply := taken reply
  newBuffer _ := []
  freedFd _ fd := fd
  accept_fresh trace fd accepted := by cases accepted
  recv_bounds _ _ _ _ got := received_bounds got
  send_pos _ _ _ _ whole := taken_pos whole

/-! ## The rounds -/

theorem visit_idle (sys : Sys) (fd : Fd) (server : HwioServer World) :
    visit sys fd 0 server = (.ok (), server) :=
  if_pos (Or.inr rfl)

/-- Descriptors that are not ready are passed over. -/
theorem visitAll_idle (sys : Sys) {fd : Fd} {fds : List Fd} (other : fd ∉ fds)
    (server : HwioServer World) :
    visitAll sys (fds.map fun polled => (polled, if polled = fd then 1 else 0)) server =
      (.ok (), server) := by
  induction fds with
  | nil => rfl
  | cons head rest inductionHypothesis =>
      rw [List.mem_cons, not_or] at other
      rw [List.map_cons, visitAll, if_neg (Ne.symm other.1), visit_idle]
      exact inductionHypothesis other.2

theorem visitAll_single (sys : Sys) {fd : Fd} {fds : List Fd} (distinct : fds.Nodup)
    (member : fd ∈ fds) (server : HwioServer World) :
    visitAll sys (fds.map fun polled => (polled, if polled = fd then 1 else 0)) server =
      visit sys fd 1 server := by
  induction fds with
  | nil => cases member
  | cons head rest inductionHypothesis =>
      rw [List.nodup_cons] at distinct
      rw [List.map_cons, visitAll]
      by_cases here : head = fd
      · subst here
        rw [if_pos rfl]
        rcases visit sys head 1 server with ⟨result, left⟩
        cases result with
        | error stop => rfl
        | ok done => exact visitAll_idle sys distinct.1 left
      · rw [if_neg here, visit_idle]
        exact inductionHypothesis distinct.2 ((List.mem_cons.mp member).resolve_left (Ne.symm here))

/-- A pass there is the requests of the one client, and the cleanup. -/
theorem poolClientMsgs_delivering {master : Fd} {rest : List Fd} {server : HwioServer World}
    (consistent : Consistent master rest server) {fd : Fd} (known : fd ∈ server.fdToClient)
    (bytes : List Byte) :
    let ran := handleMultipleClientRequests (delivering fd bytes) fd (note (.visited fd) server)
    poolClientMsgs (delivering fd bytes) server =
      (ran.1, if ran.1.isOk then cleanup ran.2 else ran.2) := by
  intro ran
  have polled := consistent.polled
  have valid := polled.agreed.valid fd known
  have listed : fd ∈ master :: rest := List.mem_cons_of_mem _ ((polled.entries fd).mp known).1
  have distinct : (master :: rest).Nodup := List.nodup_cons.mpr ⟨polled.apart.1, polled.distinct⟩
  have ready : (server.pollFds.mapIdx fun index polled =>
      (polled, server.pollFds[index]?.elim (0 : UInt16) fun polled =>
        if polled = fd then 1 else 0)) =
      server.pollFds.map fun polled => (polled, if polled = fd then 1 else 0) := by
    apply List.ext_getElem?
    intro index
    rw [List.getElem?_mapIdx, List.getElem?_map]
    cases found : server.pollFds[index]? with
    | none => rfl
    | some polled => simp only [Option.map_some, Option.elim_some]
  have visiting : visit (delivering fd bytes) fd 1 server =
      handleMultipleClientRequests (delivering fd bytes) fd (note (.visited fd) server) := by
    have client : ¬ fd = (note (.visited fd) server).masterSocket := by
      show ¬ fd = server.masterSocket
      rw [polled.masterSocket]
      exact valid.2
    unfold visit
    rw [if_neg (not_or.mpr ⟨Int.not_lt.mpr valid.1, by decide⟩)]
    simp only
    rw [if_neg (by decide), if_neg client]
  unfold poolClientMsgs
  rw [show (delivering fd bytes).ppoll server.trace server.pollFds = .ready fun index =>
    server.pollFds[index]?.elim 0 fun polled => if polled = fd then 1 else 0 from rfl]
  simp only
  rw [ready, polled.pollFds, visitAll_single _ distinct listed, visiting]
  have served : ran = handleMultipleClientRequests (delivering fd bytes) fd
      (note (.visited fd) server) := rfl
  rcases serving : handleMultipleClientRequests (delivering fd bytes) fd
    (note (.visited fd) server) with ⟨result, left⟩
  rw [served, serving]
  cases result with
  | error stop => rfl
  | ok done => rfl

/-! ## The requests -/

/-- The loop receives nothing. -/
theorem parseLoop_receives (tables : Tables World) (sys : Sys) (client other : ClientPtr)
    (fuel : Nat) (session : Session World) :
    receivedBy other (parseLoop tables sys client fuel session).2.trace =
      receivedBy other session.trace := by
  induction fuel generalizing session with
  | zero => rfl
  | succ fuel inductionHypothesis =>
      have handled : receivedBy other (handleFrame tables sys client session).2.trace =
          receivedBy other session.trace := by
        have calls : ∀ made : List Call, receivedBy other (made.map (.called client)) = [] := by
          intro made
          apply receivedBy_eq_nil
          intro event member
          obtain ⟨call, _, rfl⟩ := List.mem_map.mp member
          trivial
        have dispatched : ∀ offset header rx,
            receivedBy other [.dispatched client offset header rx] = [] := fun _ _ _ => rfl
        have answered : ∀ ctx, receivedBy other (session.afterMsg client ctx).trace =
            receivedBy other session.trace := by
          intro ctx
          rw [Session.afterMsg, receivedBy_append, ← List.singleton_append, receivedBy_append,
            dispatched, calls, List.append_nil, List.append_nil]
        rcases handleFrame_eq tables sys client session with
          ⟨stop, _, left⟩ | ⟨res, sent, disconnect, _, onlySent, _, _, left⟩
        · rw [left, answered]
        · have quiet : receivedBy other (sent ++ [.handled client disconnect]) = [] := by
            apply receivedBy_eq_nil
            intro event member
            rcases List.mem_append.mp member with part | last
            · obtain ⟨bytes, rfl⟩ := onlySent event part
              trivial
            · rw [List.mem_singleton.mp last]
              trivial
          rw [left, Session.consumed, receivedBy_append, quiet, List.append_nil, answered]
      rw [parseLoop]
      split
      · rfl
      split
      · rfl
      rcases handling : handleFrame tables sys client session with ⟨result, after⟩
      rw [handling] at handled
      cases result with
      | error stop => exact handled
      | ok disconnect =>
          cases disconnect with
          | true => exact handled
          | false => exact (inductionHypothesis after).trans handled

theorem removeClient_receives (socket : Fd) (other : ClientPtr) (server : HwioServer World) :
    receivedBy other (removeClient socket server).2.trace = receivedBy other server.trace := by
  unfold removeClient
  split
  next => rfl
  next client _ =>
    split
    next => rfl
    next record _ =>
      split
      · show receivedBy other (server.trace ++ _) = _
        have idle := fun event member => (idle_closeOnDelete client record.fd event member).unstreamed
        rw [receivedBy_append, receivedBy_eq_nil idle, List.append_nil]
      · rfl

/-- What a connection receives in the handling of its requests is what was read. -/
theorem parseMsgs_receives (sys : Sys) (client other : ClientPtr) (session : Session World)
    (server : HwioServer World) :
    receivedBy other (parseMsgs sys client session server).2.trace =
      receivedBy other session.trace := by
  have loop := parseLoop_receives server.tables sys client other
    session.client.rxBuffer.currLen session
  unfold parseMsgs
  rcases looped : parseLoop server.tables sys client session.client.rxBuffer.currLen session with
    ⟨ended, after⟩
  rw [looped] at loop
  cases ended with
  | waiting => exact loop
  | stopped stop => exact loop
  | disconnect =>
      have removed := removeClient_receives after.client.fd other (server.putSession client after)
      simp only
      rcases removal : removeClient after.client.fd (server.putSession client after) with
        ⟨result, left⟩
      rw [removal] at removed
      cases result with
      | error stop => exact removed.trans loop
      | ok done =>
          show receivedBy other (left.trace ++ [.readFreed client]) = _
          rw [receivedBy_append]
          exact (List.append_nil _).trans (removed.trans loop)

/-- A request that is answered and does not end its connection. -/
def Stays (tables : Tables World) (start : Service World) (front : List Event) : Event → Prop
  | .dispatched client _ header rx => ∃ txSize,
    (handleMsg tables header ((start.after tables front).request client rx)).1 =
      .ok ⟨false, txSize⟩
  | _ => True

theorem sendReply_delivering (fd socket : Fd) (bytes reply : List Byte) (client : ClientPtr)
    (trace : List Event) :
    (sendReply (delivering fd bytes) socket client reply.length reply trace).1 = true := by
  cases reply with
  | nil => rfl
  | cons byte rest =>
      have taken : (delivering fd bytes).send trace socket (byte :: rest) =
          .sent (byte :: rest).length := rfl
      rw [List.length_cons, sendReply, taken]
      simp only [List.drop_length]
      cases rest <;> rfl

theorem handleFrame_delivering {tables : Tables World} {client : ClientPtr}
    {session : Session World} {txSize : Nat}
    (answered : (handleMsg tables (HwioPacketHeader.at session.client.rxBuffer.buffer
      session.client.rxBuffer.currPtr) session.request).1 = .ok ⟨false, txSize⟩)
    (fd : Fd) (bytes : List Byte) :
    (handleFrame tables (delivering fd bytes) client session).1 = .ok false := by
  rcases handling : handleMsg tables (HwioPacketHeader.at session.client.rxBuffer.buffer
    session.client.rxBuffer.currPtr) session.request with ⟨result, ctx⟩
  rw [handling] at answered
  simp only at answered
  subst answered
  have sent := sendReply_delivering fd session.client.fd bytes (load ctx.tx 0 txSize) client
    (session.afterMsg client ctx).trace
  rw [load_length] at sent
  unfold handleFrame
  simp only [handling, sent, Bool.not_true, Bool.or_false]

/-- The loop over a complete frame dispatches it, and goes on behind it. -/
theorem parseLoop_complete (tables : Tables World) (sys : Sys) (client : ClientPtr) (fuel : Nat)
    {session : Session World} (header : ¬ session.client.rxBuffer.currLen < sizeofHeader)
    (body : ¬ session.client.rxBuffer.currLen < session.client.rxBuffer.msgLen) :
    (∃ more, (parseLoop tables sys client (fuel + 1) session).2.trace = session.trace ++
      .dispatched client session.client.rxBuffer.currPtr (HwioPacketHeader.at
        session.client.rxBuffer.buffer session.client.rxBuffer.currPtr) session.request.rx :: more) ∧
      ((handleFrame tables sys client session).1 = .ok false →
        parseLoop tables sys client (fuel + 1) session =
          parseLoop tables sys client fuel (handleFrame tables sys client session).2) := by
  obtain ⟨events, rxBuffer, left, _⟩ := handleFrame_session tables sys client session
  have trace := congrArg Session.trace left
  simp only at trace
  rw [parseLoop, if_neg header, if_neg body]
  rcases handling : handleFrame tables sys client session with ⟨result, after⟩
  rw [handling] at trace
  cases result with
  | error stop => exact ⟨⟨_, trace⟩, by simp⟩
  | ok disconnect =>
      cases disconnect with
      | true => exact ⟨⟨_, trace⟩, by simp⟩
      | false =>
          obtain ⟨more, appended, _⟩ := (parseLoop_traffic tables sys client fuel after).1.trace
          simp only at appended ⊢
          rw [show after.trace = _ from trace, List.append_assoc] at appended
          exact ⟨⟨_, appended⟩, by simp⟩

/-- When all requests stay, the loop ends for want of bytes. -/
theorem parseLoop_of_stays {tables : Tables World} {start : Service World} {fd : Fd}
    {bytes : List Byte} {client : ClientPtr} {fuel : Nat} {session : Session World}
    {server : HwioServer World} (known : Known tables start (server.putSession client session))
    (stays : ∀ front event back,
      (parseLoop server.tables (delivering fd bytes) client fuel session).2.trace =
        session.trace ++ (front ++ event :: back) →
      Stays tables start (session.trace ++ front) event) :
    (parseLoop server.tables (delivering fd bytes) client fuel session).1 = .waiting := by
  induction fuel generalizing session with
  | zero => rfl
  | succ fuel inductionHypothesis =>
      obtain rfl : server.tables = tables := known.unchanged
      have live := putSession_heap server client session
      by_cases header : session.client.rxBuffer.currLen < sizeofHeader
      · rw [parseLoop, if_pos header]
      by_cases body : session.client.rxBuffer.currLen < session.client.rxBuffer.msgLen
      · rw [parseLoop, if_neg header, if_pos body]
      obtain ⟨⟨more, whole⟩, goesOn⟩ := parseLoop_complete server.tables (delivering fd bytes) client
        fuel header body
      obtain ⟨txSize, answered⟩ := stays [] _ more whole
      rw [List.append_nil] at answered
      have request : (start.after server.tables session.trace).request client session.request.rx =
        session.request := known.request live session.request.rx
      rw [request] at answered
      have handled := @handleFrame_delivering _ server.tables client session txSize answered fd bytes
      have moved : Move (delivering fd bytes) _ _ _ _ := .answered client session.client live
        ⟨Nat.le_of_not_lt header, Nat.le_of_not_lt body⟩ _ rfl
      have known' := Move.known moved known
      rw [session_putSession, putSession_putSession] at known'
      change Known server.tables start (server.putSession client
        (handleFrame server.tables (delivering fd bytes) client session).2) at known'
      rw [goesOn handled] at stays ⊢
      apply inductionHypothesis known'
      intro front event back split
      obtain ⟨events, trace, _⟩ := (handleFrame_traffic server.tables (delivering fd bytes) client
        session).trace
      rw [trace, List.append_assoc] at split ⊢
      apply stays (events ++ front) event back
      rw [split, List.append_assoc]

/-! ## A pass -/

theorem readFromSocket_delivering (fd : Fd) (client : ClientPtr) {bytes : List Byte}
    {session : Session World}
    (room : bytes.take (rxBufferSize - session.client.rxBuffer.currLen) ≠ []) :
    ∃ after, readFromSocket (delivering fd bytes) client session = (true, after) ∧
      receivedBy client after.trace = receivedBy client session.trace ++
        bytes.take (rxBufferSize - session.client.rxBuffer.currLen) := by
  have came : ∀ history, (delivering fd bytes).recv history session.client.fd
      (rxBufferSize - session.client.rxBuffer.currLen) =
        .data (bytes.take (rxBufferSize - session.client.rxBuffer.currLen)) :=
    fun history => if_neg room
  unfold readFromSocket
  simp only [came]
  refine ⟨_, rfl, ?_⟩
  have received : ∀ offset room data, receivedBy client [.received client offset room data] =
      data := fun offset room data => by simp [receivedBy]
  have copied : ∀ source count, receivedBy client [.copied client source count] = [] :=
    fun _ _ => rfl
  simp only [receivedBy_append, received]
  split
  · rw [receivedBy_append, copied, List.append_nil]
  · rfl

/-- The events of the loop come first. -/
theorem parseMsgs_follows (sys : Sys) (client : ClientPtr) (session : Session World)
    (server : HwioServer World) :
    (parseLoop server.tables sys client session.client.rxBuffer.currLen session).2.trace <+:
      (parseMsgs sys client session server).2.trace := by
  unfold parseMsgs
  rcases parseLoop server.tables sys client session.client.rxBuffer.currLen session with
    ⟨ended, after⟩
  cases ended with
  | waiting => exact List.prefix_rfl
  | stopped stop => exact List.prefix_rfl
  | disconnect =>
      obtain ⟨events, trace⟩ := Moves.appends
        (removeClient_moves sys after.client.fd (server.putSession client after))
      simp only
      rcases removal : removeClient after.client.fd (server.putSession client after) with
        ⟨result, left⟩
      rw [removal] at trace
      have front : after.trace <+: left.trace := ⟨events, trace.symm⟩
      cases result with
      | error stop => exact front
      | ok done => exact front.trans (List.prefix_append _ _)

theorem parseMsgs_waits {sys : Sys} {client : ClientPtr} {session : Session World}
    {server : HwioServer World} (waits : (parseLoop server.tables sys client
      session.client.rxBuffer.currLen session).1 = .waiting) :
    ∃ after, parseMsgs sys client session server = (.ok (), server.putSession client after) := by
  unfold parseMsgs
  rcases looped : parseLoop server.tables sys client session.client.rxBuffer.currLen session with
    ⟨ended, after⟩
  rw [looped] at waits
  simp only at waits
  subst waits
  exact ⟨after, rfl⟩

theorem handleMultipleClientRequests_live (sys : Sys) {server : HwioServer World}
    {client : ClientPtr} {record : ClientInfo}
    (entry : server.fdToClient.lookup record.fd = some client)
    (live : server.heap client = some record) {session : Session World}
    (reading : readFromSocket sys client (server.session record) = (true, session)) :
    handleMultipleClientRequests sys record.fd server =
      parseMsgs sys client session (server.putSession client session) := by
  have owner : clientOf sys record.fd server = (.ok client, server) := by
    simp only [clientOf, entry]
  simp only [handleMultipleClientRequests, owner, live, if_pos, reading]

/-- A pass that brings bytes to one live client: it is about no other client, it
receives as many of the bytes as there is room for, and when all requests among
them stay, it returns and the client is still there. -/
theorem Consistent.delivers {tables : Tables World} {start : Service World} {master : Fd}
    {rest : List Fd} {server : HwioServer World} (consistent : Consistent master rest server)
    (known : Known tables start server) {owner : ClientPtr} {record : ClientInfo}
    (live : server.heap owner = some record) {bytes : List Byte}
    (room : bytes.take (rxBufferSize - record.rxBuffer.currLen) ≠ []) :
    let ran := poolClientMsgs (delivering record.fd bytes) server
    ∃ events, ran.2.trace = (note (.visited record.fd) server).trace ++ events ∧
      (∀ event ∈ events, Concerns owner record.fd event) ∧
      receivedBy owner events = bytes.take (rxBufferSize - record.rxBuffer.currLen) ∧
      ((∀ front event back, events = front ++ event :: back →
          Stays tables start ((note (.visited record.fd) server).trace ++ front) event) →
        ran.1 = .ok () ∧ ∃ after, ran.2.heap owner = some after) := by
  intro ran
  have agreed := consistent.polled.agreed
  have entry := agreed.record_entry owner record live
  have moved : Move (delivering record.fd bytes) server .idle .idle
    (note (.visited record.fd) server) := .noted _ trivial
  have known' := Move.known moved known
  have agreed' := agreed.quiet (quiet_note server (show ¬ Life (.visited record.fd) from id))
  have turn := @handleMultipleClientRequests_turn _ tables start (delivering record.fd bytes) _ _ _
    agreed' owner entry known'
  have pass := poolClientMsgs_delivering consistent
    (AList.lookup_isSome.mp (by rw [entry]; rfl)) bytes
  obtain ⟨session, reading, received⟩ := @readFromSocket_delivering _ record.fd owner bytes
    ((note (.visited record.fd) server).session record) room
  have serving := @handleMultipleClientRequests_live _ (delivering record.fd bytes)
    (note (.visited record.fd) server) owner record entry live session reading
  have receives := parseMsgs_receives (delivering record.fd bytes) owner owner session
    ((note (.visited record.fd) server).putSession owner session)
  obtain ⟨events, trace, concern⟩ := turn.trace
  have same : ran.2.trace = (note (.visited record.fd) server).trace ++ events := by
    rw [← trace]
    show (poolClientMsgs (delivering record.fd bytes) server).2.trace = _
    rw [pass]
    split
    · rfl
    · rfl
  refine ⟨events, same, concern, ?_, ?_⟩
  · rw [← serving, trace, receivedBy_append, received] at receives
    exact List.append_cancel_left receives
  · intro stays
    have received' : Move (delivering record.fd bytes) (note (.visited record.fd) server) .idle
        (.serving owner) ((note (.visited record.fd) server).putSession owner session) := by
      have read := @Move.received _ (delivering record.fd bytes) (note (.visited record.fd) server)
        owner record live
      rw [reading] at read
      exact read rfl
    obtain ⟨early, appended, _⟩ := (readFromSocket_traffic (delivering record.fd bytes) owner
      ((note (.visited record.fd) server).session record)).trace
    rw [reading] at appended
    obtain ⟨late, follows⟩ := parseMsgs_follows (delivering record.fd bytes) owner session
      ((note (.visited record.fd) server).putSession owner session)
    rw [← serving, trace] at follows
    have waits := @parseLoop_of_stays _ tables start record.fd bytes owner
      session.client.rxBuffer.currLen session (note (.visited record.fd) server)
      (Move.known received' known') (by
        intro front event back split
        change (parseLoop ((note (.visited record.fd) server).putSession owner session).tables
          (delivering record.fd bytes) owner session.client.rxBuffer.currLen session).2.trace = _
            at split
        change session.trace = (note (.visited record.fd) server).trace ++ early at appended
        rw [split, appended] at follows
        rw [appended, List.append_assoc]
        apply stays (early ++ front) event (back ++ late)
        apply @List.append_cancel_left _ (note (.visited record.fd) server).trace
        rw [← follows]
        simp only [List.append_assoc, List.cons_append])
    obtain ⟨after, returned⟩ := @parseMsgs_waits _ (delivering record.fd bytes) owner session
      ((note (.visited record.fd) server).putSession owner session) waits
    have ended : ran = (.ok (), cleanup (((note (.visited record.fd) server).putSession owner
        session).putSession owner after)) := by
      show poolClientMsgs (delivering record.fd bytes) server = _
      rw [pass]
      show ((handleMultipleClientRequests _ record.fd (note (.visited record.fd) server)).1, _) = _
      rw [serving, returned]
      rfl
    rw [ended]
    exact ⟨rfl, after.client, putSession_heap _ owner after⟩

end HwioServer

end Hwio
