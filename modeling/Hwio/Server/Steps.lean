import Mathlib.Logic.Relation
import Hwio.Server.Sessions

/-!
Contract: the single changes that a pass of the poll loop is made of.

Owns the step relation and the order in which a pass takes steps, the proof
that every pass is a sequence of such steps however it ends, and the runs of
passes.

Does not own any invariant of a run.
-/

namespace Hwio

open Library

variable {World : Type}

namespace HwioServer

/-- The events that only report where the loop is. -/
def Notice : Event → Prop
  | .accepted _ | .visited _ | .readFreed _ => True
  | _ => False

/-- One change of the server. -/
inductive Step (sys : Sys) (server : HwioServer World) : HwioServer World → Prop
  | noted (event : Event) (notice : Notice event) :
      Step sys server (note event server)
  | allocated (socket : Fd) : Step sys server (allocClient sys socket server)
  | listed (socket : Fd) (client : ClientPtr) : Step sys server (listClient socket client server)
  | deleted (client : ClientPtr) (record : ClientInfo) (live : server.heap client = some record) :
      Step sys server (deleteClient client record server)
  | received (client : ClientPtr) (record : ClientInfo)
      (live : server.heap client = some record) :
      Step sys server
        (server.putSession client (readFromSocket sys client (server.session record)).2)
  | answered (client : ClientPtr) (record : ClientInfo)
      (live : server.heap client = some record)
      (complete : sizeofHeader ≤ record.rxBuffer.currLen ∧
        record.rxBuffer.msgLen ≤ record.rxBuffer.currLen) :
      Step sys server
        (server.putSession client
          (handleFrame server.tables sys client (server.session record)).2)
  | queued (fd : Fd) : Step sys server (pushRemoved fd server)
  | cleaned : Step sys server (cleanup server)

abbrev Steps (sys : Sys) : HwioServer World → HwioServer World → Prop :=
  Relation.ReflTransGen (Step sys)

/-! ## Sessions inside the server -/

@[simp] theorem putSession_heap (server : HwioServer World) (client : ClientPtr)
    (session : Session World) :
    (server.putSession client session).heap client = some session.client :=
  Function.update_self ..

@[simp] theorem session_putSession (server : HwioServer World) (client : ClientPtr)
    (session : Session World) :
    (server.putSession client session).session session.client = session := rfl

@[simp] theorem putSession_putSession (server : HwioServer World) (client : ClientPtr)
    (first second : Session World) :
    (server.putSession client first).putSession client second =
      server.putSession client second := by
  simp only [putSession, Function.update_idem]

theorem putSession_session (server : HwioServer World) {client : ClientPtr} {record : ClientInfo}
    (live : server.heap client = some record) :
    server.putSession client (server.session record) = server := by
  have same : Function.update server.heap client (some record) = server.heap := by
    rw [← live, Function.update_eq_self]
  cases server
  simp only [putSession, session] at same ⊢
  rw [same]

/-! ## The order of the changes -/

/-- Where a pass is: between two connections, among the frames of one, or
about to remove the one whose frame asked for it. -/
inductive Mode where
  | idle
  | serving (client : ClientPtr)
  | doomed (client : ClientPtr)
deriving DecidableEq, Repr

/-- One change of the server, and where the pass is before and after it. -/
inductive Move (sys : Sys) (server : HwioServer World) : Mode → Mode → HwioServer World → Prop
  | noted (event : Event) (notice : Notice event) :
      Move sys server .idle .idle (note event server)
  | allocated (socket : Fd) : Move sys server .idle .idle (allocClient sys socket server)
  | listed (socket : Fd) (client : ClientPtr) :
      Move sys server .idle .idle (listClient socket client server)
  | dropped (client : ClientPtr) (record : ClientInfo)
      (live : server.heap client = some record) :
      Move sys server .idle .idle (deleteClient client record server)
  | received (client : ClientPtr) (record : ClientInfo)
      (live : server.heap client = some record)
      (came : (readFromSocket sys client (server.session record)).1 = true) :
      Move sys server .idle (.serving client)
        (server.putSession client (readFromSocket sys client (server.session record)).2)
  | failed (client : ClientPtr) (record : ClientInfo)
      (live : server.heap client = some record)
      (ended : (readFromSocket sys client (server.session record)).1 = false) :
      Move sys server .idle .idle
        (server.putSession client (readFromSocket sys client (server.session record)).2)
  | answered (client : ClientPtr) (record : ClientInfo)
      (live : server.heap client = some record)
      (complete : sizeofHeader ≤ record.rxBuffer.currLen ∧
        record.rxBuffer.msgLen ≤ record.rxBuffer.currLen)
      (after : Mode)
      (ended : after = match (handleFrame server.tables sys client (server.session record)).1 with
        | .ok false => .serving client
        | .ok true => .doomed client
        | .error _ => .idle) :
      Move sys server (.serving client) after
        (server.putSession client
          (handleFrame server.tables sys client (server.session record)).2)
  | waits (client : ClientPtr) (record : ClientInfo)
      (live : server.heap client = some record)
      (incomplete : record.rxBuffer.currLen < sizeofHeader ∨
        record.rxBuffer.currLen < record.rxBuffer.msgLen) :
      Move sys server (.serving client) .idle server
  | removed (client : ClientPtr) (record : ClientInfo)
      (live : server.heap client = some record) :
      Move sys server (.doomed client) .idle (deleteClient client record server)
  | queued (fd : Fd) : Move sys server .idle .idle (pushRemoved fd server)
  | cleaned : Move sys server .idle .idle (cleanup server)

abbrev Moves (sys : Sys) : Mode × HwioServer World → Mode × HwioServer World → Prop :=
  Relation.ReflTransGen fun before after => Move sys before.2 before.1 after.1 after.2

theorem Move.steps {sys : Sys} {before after : HwioServer World} {mode mode' : Mode}
    (move : Move sys before mode mode' after) : Steps sys before after := by
  cases move with
  | noted event notice => exact .single (.noted event notice)
  | allocated socket => exact .single (.allocated socket)
  | listed socket client => exact .single (.listed socket client)
  | dropped client record live => exact .single (.deleted client record live)
  | received client record live came => exact .single (.received client record live)
  | failed client record live ended => exact .single (.received client record live)
  | answered client record live complete _ ended =>
      exact .single (.answered client record live complete)
  | waits client record live incomplete => exact .refl
  | removed client record live => exact .single (.deleted client record live)
  | queued fd => exact .single (.queued fd)
  | cleaned => exact .single .cleaned

theorem Moves.steps {sys : Sys} {before after : Mode × HwioServer World}
    (moves : Moves sys before after) : Steps sys before.2 after.2 := by
  induction moves with
  | refl => exact .refl
  | tail _ move steps => exact steps.trans (Move.steps move)

/-- A complete frame lies at the front of the buffer of a client. -/
def Asks (server : HwioServer World) (client : ClientPtr) (offset : Nat)
    (header : HwioPacketHeader) (rx : List Byte) : Prop :=
  ∃ record, server.heap client = some record ∧
    record.rxBuffer.msgLen ≤ record.rxBuffer.currLen ∧ offset = record.rxBuffer.currPtr ∧
    header = HwioPacketHeader.at record.rxBuffer.buffer record.rxBuffer.currPtr ∧
    rx = (server.session record).request.rx

/-- A move dispatches at most the frame that the served client asks for, before
anything else. -/
theorem Move.appends {sys : Sys} {before after : HwioServer World} {mode mode' : Mode}
    (move : Move sys before mode mode' after) :
    ∃ events, after.trace = before.trace ++ events ∧
      ∀ front back client offset header rx,
        events = front ++ .dispatched client offset header rx :: back →
          front = [] ∧ mode = .serving client ∧ Asks before client offset header rx := by
  have nothing : ∀ events : List Event,
      (∀ event ∈ events, ∀ client offset header rx, event ≠ .dispatched client offset header rx) →
      ∀ front back client offset header rx,
        events = front ++ .dispatched client offset header rx :: back →
          front = [] ∧ mode = .serving client ∧ Asks before client offset header rx := by
    intro events none front back client offset header rx split
    refine absurd rfl (none (.dispatched client offset header rx) ?_ _ _ _ _)
    rw [split]
    exact List.mem_append_right _ List.mem_cons_self
  cases move with
  | noted event notice =>
      refine ⟨[event], rfl, nothing _ fun other member => ?_⟩
      rw [List.mem_singleton.mp member]
      rintro client offset header rx rfl
      exact notice
  | allocated socket => exact ⟨[.created before.nextClient socket], rfl, nothing _ (by simp)⟩
  | listed socket client => exact ⟨[], (List.append_nil _).symm, nothing _ (by simp)⟩
  | dropped client record live =>
      refine ⟨.removed client :: closeOnDelete record.fd, rfl, nothing _ ?_⟩
      unfold closeOnDelete
      split <;> simp
  | removed client record live =>
      refine ⟨.removed client :: closeOnDelete record.fd, rfl, nothing _ ?_⟩
      unfold closeOnDelete
      split <;> simp
  | received client record live came =>
      obtain ⟨events, rxBuffer, session, progress⟩ :=
        readFromSocket_session sys client (before.session record)
      refine ⟨events, congrArg Session.trace session, nothing _ fun event member => ?_⟩
      rintro other offset header rx rfl
      cases progress _ member
  | failed client record live ended =>
      obtain ⟨events, rxBuffer, session, progress⟩ :=
        readFromSocket_session sys client (before.session record)
      refine ⟨events, congrArg Session.trace session, nothing _ fun event member => ?_⟩
      rintro other offset header rx rfl
      cases progress _ member
  | answered client record live complete _ ended =>
      obtain ⟨events, rxBuffer, session, progress⟩ :=
        handleFrame_session before.tables sys client (before.session record)
      refine ⟨_, congrArg Session.trace session, ?_⟩
      intro front back other offset header rx split
      obtain ⟨rfl, rfl, rfl, rfl, rfl, _⟩ := dispatched_in_answer progress split
      exact ⟨rfl, rfl, record, live, complete.2, rfl, rfl, rfl⟩
  | waits client record live incomplete => exact ⟨[], (List.append_nil _).symm, nothing _ (by simp)⟩
  | queued fd => exact ⟨[], (List.append_nil _).symm, nothing _ (by simp)⟩
  | cleaned => exact ⟨[], (List.append_nil _).symm, nothing _ (by simp)⟩

/-! ## The functions of a pass -/

variable (sys : Sys)

theorem addNewClient_moves (socket : Fd) (server : HwioServer World) :
    Moves sys (.idle, server) (.idle, (addNewClient sys socket server).2) := by
  have allocated : Moves sys (.idle, server) (.idle, allocClient sys socket server) :=
    .single (.allocated socket)
  unfold addNewClient
  simp only
  split
  · exact allocated.tail (.listed socket _)
  · exact allocated

theorem removeClient_moves (socket : Fd) (server : HwioServer World) :
    Moves sys (.idle, server) (.idle, (removeClient socket server).2) := by
  unfold removeClient
  split
  next => exact .refl
  next client _ =>
    split
    next => exact .refl
    next record live =>
      split
      · exact .single (.dropped client record live)
      · exact .refl

/-- Where a pass is after the loop over the frames of a client. -/
def modeAfter (client : ClientPtr) : LoopEnd → Mode
  | .waiting => .idle
  | .disconnect => .doomed client
  | .stopped _ => .idle

theorem parseLoop_moves (client : ClientPtr) {fuel : Nat} {session : Session World}
    (enough : session.client.rxBuffer.currLen ≤ fuel) (server : HwioServer World) :
    Moves sys (.serving client, server.putSession client session)
      (modeAfter client (parseLoop server.tables sys client fuel session).1,
        server.putSession client (parseLoop server.tables sys client fuel session).2) := by
  have live := putSession_heap server client session
  induction fuel generalizing session with
  | zero =>
      refine .single (.waits client session.client live (Or.inl ?_))
      exact Nat.lt_of_le_of_lt enough (by decide)
  | succ fuel inductionHypothesis =>
      rw [parseLoop]
      by_cases header : session.client.rxBuffer.currLen < sizeofHeader
      · rw [if_pos header]
        exact .single (.waits client session.client live (Or.inl header))
      rw [if_neg header]
      by_cases body : session.client.rxBuffer.currLen < session.client.rxBuffer.msgLen
      · rw [if_pos body]
        exact .single (.waits client session.client live (Or.inr body))
      rw [if_neg body]
      have answered : Move sys _ _ _ _ := .answered client session.client live
        ⟨Nat.le_of_not_lt header, Nat.le_of_not_lt body⟩ _ rfl
      rw [session_putSession, putSession_putSession] at answered
      change Move sys _ _ (match (handleFrame server.tables sys client session).1 with
        | .ok false => Mode.serving client
        | .ok true => Mode.doomed client
        | .error _ => Mode.idle) (server.putSession client
        (handleFrame server.tables sys client session).2) at answered
      have shorter := @handleFrame_currLen _ server.tables sys client session false
      have positive := msgLen_pos session.client.rxBuffer
      rcases handling : handleFrame server.tables sys client session with ⟨result, after⟩
      rw [handling] at answered shorter
      cases result with
      | error stop => exact .single answered
      | ok disconnect =>
          cases disconnect with
          | true => exact .single answered
          | false =>
              have less := shorter rfl
              simp only at less answered ⊢
              exact Relation.ReflTransGen.head answered
                (inductionHypothesis (by omega) (putSession_heap server client after))

theorem parseLoop_fd (tables : Tables World) (client : ClientPtr) (fuel : Nat)
    (session : Session World) :
    (parseLoop tables sys client fuel session).2.client.fd = session.client.fd := by
  induction fuel generalizing session with
  | zero => rfl
  | succ fuel inductionHypothesis =>
      obtain ⟨events, rxBuffer, left, _⟩ := handleFrame_session tables sys client session
      have kept : (handleFrame tables sys client session).2.client.fd = session.client.fd := by
        rw [left]
      rw [parseLoop]
      split
      · rfl
      split
      · rfl
      rcases handling : handleFrame tables sys client session with ⟨result, after⟩
      rw [handling] at kept
      cases result with
      | error stop => exact kept
      | ok disconnect =>
          cases disconnect with
          | true => exact kept
          | false => exact (inductionHypothesis after).trans kept

/-- A client that is an entry is removed at once when a frame asks for it. -/
theorem parseMsgs_moves {client : ClientPtr} {session : Session World}
    {server : HwioServer World}
    (entry : server.fdToClient.lookup session.client.fd = some client) :
    Moves sys (.serving client, server.putSession client session)
      (.idle, (parseMsgs sys client session (server.putSession client session)).2) := by
  have parsed := parseLoop_moves sys client (Nat.le_refl session.client.rxBuffer.currLen) server
  have fd := parseLoop_fd sys server.tables client session.client.rxBuffer.currLen session
  unfold parseMsgs
  simp only [show (server.putSession client session).tables = server.tables from rfl,
    putSession_putSession]
  rcases loop : parseLoop server.tables sys client session.client.rxBuffer.currLen session with
    ⟨ended, after⟩
  rw [loop] at parsed fd
  cases ended with
  | waiting => exact parsed
  | stopped stop => exact parsed
  | disconnect =>
      have live := putSession_heap server client after
      have entry' : (server.putSession client after).fdToClient.lookup after.client.fd =
          some client := by
        rw [fd]
        exact entry
      have removal : removeClient after.client.fd (server.putSession client after) =
          (.ok (), deleteClient client after.client (server.putSession client after)) := by
        simp only [removeClient, entry', live, if_pos]
      simp only [removal]
      have removed : Moves sys (.doomed client, server.putSession client after)
          (.idle, deleteClient client after.client (server.putSession client after)) :=
        .single (.removed client after.client live)
      have noticed : Moves sys
          (.idle, deleteClient client after.client (server.putSession client after))
          (.idle, note (.readFreed client)
            (deleteClient client after.client (server.putSession client after))) :=
        .single (.noted (.readFreed client) trivial)
      exact ((parsed.trans removed).trans noticed).trans (.single (.queued _))

theorem clientOf_moves (socket : Fd) (server : HwioServer World) :
    Moves sys (.idle, server) (.idle, (clientOf sys socket server).2) := by
  unfold clientOf
  split
  · exact addNewClient_moves sys socket server
  · exact .refl

theorem clientOf_lookup {sys : Sys} {server owned : HwioServer World} {socket : Fd}
    {client : ClientPtr} (owner : clientOf sys socket server = (.ok client, owned)) :
    owned.fdToClient.lookup socket = some client := by
  unfold clientOf addNewClient at owner
  split at owner
  · simp only at owner
    split at owner
    · cases owner
      exact AList.lookup_insert _
    · cases owner
  next entry =>
    cases owner
    exact entry

theorem handleMultipleClientRequests_moves (socket : Fd) (server : HwioServer World) :
    Moves sys (.idle, server) (.idle, (handleMultipleClientRequests sys socket server).2) := by
  have found := clientOf_moves sys socket server
  unfold handleMultipleClientRequests
  rcases owner : clientOf sys socket server with ⟨result, owned⟩
  rw [owner] at found
  cases result with
  | error stop => exact found
  | ok client =>
      simp only
      split
      next => exact found
      next record live =>
        by_cases same : record.fd = socket
        case neg =>
          rw [if_neg same]
          exact found
        rw [if_pos same]
        obtain ⟨events, rxBuffer, left, _⟩ :=
          readFromSocket_session sys client (owned.session record)
        have fd : (readFromSocket sys client (owned.session record)).2.client.fd = socket := by
          rw [left]
          exact same
        have received := @Move.received _ sys owned client record live
        have failed := @Move.failed _ sys owned client record live
        rcases reading : readFromSocket sys client (owned.session record) with ⟨came, session⟩
        rw [reading] at received failed fd
        cases came with
        | true =>
            have entry : owned.fdToClient.lookup session.client.fd = some client := by
              rw [show session.client.fd = socket from fd]
              exact clientOf_lookup owner
            exact (found.tail (received rfl)).trans (parseMsgs_moves sys entry)
        | false =>
            have put : Moves sys (.idle, server) (.idle, owned.putSession client session) :=
              found.trans (.single (failed rfl))
            have removed := removeClient_moves sys socket (owned.putSession client session)
            simp only
            rcases removal : removeClient socket (owned.putSession client session) with
              ⟨result, last⟩
            rw [removal] at removed
            cases result with
            | error stop => exact put.trans removed
            | ok done => exact (put.trans removed).tail (.queued socket)

theorem visit_moves (fd : Fd) (revents : UInt16) (server : HwioServer World) :
    Moves sys (.idle, server) (.idle, (visit sys fd revents server).2) := by
  unfold visit
  split
  · exact .refl
  simp only
  have visited : Moves sys (.idle, server) (.idle, note (.visited fd) server) :=
    .single (.noted _ trivial)
  refine visited.trans ?_
  generalize note (.visited fd) server = server
  split
  · split
    · exact .refl
    · have removed := removeClient_moves sys fd server
      rcases removal : removeClient fd server with ⟨result, left⟩
      rw [removal] at removed
      cases result with
      | error stop => exact removed
      | ok done => exact removed.tail (.queued fd)
  · split
    · split
      · exact .refl
      · rename_i socket _
        have accepted : Moves sys (.idle, server) (.idle, note (.accepted socket) server) :=
          .single (.noted _ trivial)
        have added := addNewClient_moves sys socket (note (.accepted socket) server)
        rcases addition : addNewClient sys socket (note (.accepted socket) server) with
          ⟨result, left⟩
        rw [addition] at added
        cases result with
        | error stop => exact accepted.trans added
        | ok client => exact accepted.trans added
    · exact handleMultipleClientRequests_moves sys fd server

theorem visitAll_moves (polled : List (Fd × UInt16)) (server : HwioServer World) :
    Moves sys (.idle, server) (.idle, (visitAll sys polled server).2) := by
  induction polled generalizing server with
  | nil => exact .refl
  | cons head rest inductionHypothesis =>
      obtain ⟨fd, revents⟩ := head
      have visited := visit_moves sys fd revents server
      rw [visitAll]
      rcases visiting : visit sys fd revents server with ⟨result, left⟩
      rw [visiting] at visited
      cases result with
      | error stop => exact visited
      | ok done => exact visited.trans (inductionHypothesis left)

/-- A pass is a sequence of moves, however it ends. -/
theorem poolClientMsgs_moves (server : HwioServer World) :
    Moves sys (.idle, server) (.idle, (poolClientMsgs sys server).2) := by
  unfold poolClientMsgs
  split
  · exact .refl
  · exact .refl
  · exact .refl
  · rename_i revents _
    have visited := visitAll_moves sys
      (server.pollFds.mapIdx fun index fd => (fd, revents index)) server
    rcases visiting :
      visitAll sys (server.pollFds.mapIdx fun index fd => (fd, revents index)) server with
      ⟨result, left⟩
    rw [visiting] at visited
    cases result with
    | error stop => exact visited
    | ok done => exact visited.tail .cleaned

theorem poolClientMsgs_steps (server : HwioServer World) :
    Steps sys server (poolClientMsgs sys server).2 :=
  Moves.steps (poolClientMsgs_moves sys server)

/-! ## Runs -/

variable {sys}

/-- The states that passes lead to, whatever the operating system answers and
however the passes end. -/
inductive Reached (start : HwioServer World) : HwioServer World → Prop
  | start : Reached start start
  | pass {server : HwioServer World} (before : Reached start server) (sys : Sys) :
      Reached start (poolClientMsgs sys server).2

theorem Steps.invariant {before after : HwioServer World} {Invariant : HwioServer World → Prop}
    (steps : Steps sys before after) (initial : Invariant before)
    (preserved : ∀ before after, Step sys before after → Invariant before → Invariant after) :
    Invariant after := by
  induction steps with
  | refl => exact initial
  | tail _ step kept => exact preserved _ _ step kept

/-- What every step keeps holds in every state reached. -/
theorem Reached.invariant {start server : HwioServer World} {Invariant : HwioServer World → Prop}
    (reached : Reached start server) (initial : Invariant start)
    (preserved : ∀ (sys : Sys) before after, Step sys before after → Invariant before →
      Invariant after) : Invariant server := by
  induction reached with
  | start => exact initial
  | pass _ sys kept => exact (poolClientMsgs_steps sys _).invariant kept (preserved sys)

theorem Moves.invariant {before after : Mode × HwioServer World}
    {Invariant : Mode → HwioServer World → Prop}
    (moves : Moves sys before after) (initial : Invariant before.1 before.2)
    (preserved : ∀ before after mode mode', Move sys before mode mode' after →
      Invariant mode before → Invariant mode' after) : Invariant after.1 after.2 := by
  induction moves with
  | refl => exact initial
  | tail _ move kept => exact preserved _ _ _ _ move kept

/-- The states inside the passes of a run, and where the pass is. -/
def Within (start : HwioServer World) (mode : Mode) (server : HwioServer World) : Prop :=
  ∃ (sys : Sys) (before : HwioServer World), Reached start before ∧
    Moves sys (.idle, before) (mode, server)

/-- What every move keeps holds in every state reached. -/
theorem Reached.moving {start server : HwioServer World}
    {Invariant : Mode → HwioServer World → Prop}
    (reached : Reached start server) (initial : Invariant .idle start)
    (preserved : ∀ (sys : Sys) before after mode mode', Move sys before mode mode' after →
      Invariant mode before → Invariant mode' after) : Invariant .idle server := by
  induction reached with
  | start => exact initial
  | pass _ sys kept => exact (poolClientMsgs_moves sys _).invariant kept (preserved sys)

/-- It also holds inside every pass. -/
theorem Within.moving {start server : HwioServer World} {mode : Mode}
    {Invariant : Mode → HwioServer World → Prop}
    (within : Within start mode server) (initial : Invariant .idle start)
    (preserved : ∀ (sys : Sys) before after mode mode', Move sys before mode mode' after →
      Invariant mode before → Invariant mode' after) : Invariant mode server := by
  obtain ⟨sys, before, reached, moves⟩ := within
  have kept : Invariant .idle before := reached.moving initial preserved
  exact moves.invariant kept (preserved sys)

/-! ## A run with one client -/

/-- The system in which the last polled descriptor is always ready, one client
connects, and every read returns the same bytes. -/
def loneClient (bytes : List Byte) : Sys where
  ppoll _ fds := .ready fun index => if index + 1 = fds.length then 1 else 0
  accept trace := if 4 ∈ openFds trace then none else some 4
  recv _ _ room := if bytes ≠ [] ∧ bytes.length ≤ room then .data bytes else .failed
  send _ _ reply := if reply = [] then .failed else .sent reply.length
  newBuffer _ := []
  freedFd _ fd := fd
  accept_fresh trace fd accepted := by
    split at accepted
    · cases accepted
    · next free =>
      cases accepted
      exact ⟨by decide, free⟩
  recv_bounds trace fd room data received := by
    split at received
    · next fits =>
      cases received
      exact fits
    · cases received
  send_pos trace fd reply count whole := by
    split at whole
    · cases whole
    · next some =>
      cases whole
      exact List.length_pos_iff.mpr some

/-- The system of `loneClient` in which another client asks to connect. -/
def secondClient : Sys :=
  { loneClient [] with
    accept := fun trace => if 5 ∈ openFds trace then none else some 5
    accept_fresh := by
      intro trace fd accepted
      split at accepted
      · cases accepted
      next free =>
        cases accepted
        exact ⟨by decide, free⟩ }

/-- The run of a server on which the client of `loneClient` connects and its
bytes are read once. -/
def loneRun (tables : Tables World) (tx : List Byte) (world : World) (bytes : List Byte) :
    HwioServer World :=
  let connected := (poolClientMsgs (loneClient bytes) (prepared tables 3 tx world)).2
  (poolClientMsgs (loneClient bytes) connected).2

theorem healthy_ready : ¬ ((1 : UInt16) &&& pollErr ≠ 0 ∨ (1 : UInt16) &&& pollHup ≠ 0 ∨
    (1 : UInt16) &&& pollNval ≠ 0) := by decide

theorem loneRun_connects (tables : Tables World) (tx : List Byte) (world : World)
    (bytes : List Byte) :
    (poolClientMsgs (loneClient bytes) (prepared tables 3 tx world)).2 =
      { prepared tables 3 tx world with
        pollFds := [3, 4]
        fdToClient := AList.singleton 4 0
        clients := [some 0]
        heap := Function.update (fun _ => none) 0 (some ⟨0, 4, ⟨[], 0, 0⟩, []⟩)
        nextClient := 1
        trace := [.opened 3, .visited 3, .accepted 4, .created 0 4] } := by
  have fresh : 4 ∉ openFds [.opened 3, .visited 3] := by decide
  simp [poolClientMsgs, loneClient, prepared, visitAll, visit, if_neg healthy_ready, addNewClient,
    allocClient, listClient, note, cleanup, fresh]

theorem loneRun_reached (tables : Tables World) (tx : List Byte) (world : World)
    (bytes : List Byte) :
    Reached (prepared tables 3 tx world) (loneRun tables tx world bytes) :=
  .pass (.pass .start _) _

/-- The connection of `loneClient` when its bytes have been read. -/
def loneSession (tx : List Byte) (world : World) (bytes : List Byte) : Session World where
  client := ⟨0, 4, ⟨bytes, 0, bytes.length⟩, []⟩
  txBuffer := tx
  world := world
  trace := [.opened 3, .visited 3, .accepted 4, .created 0 4, .visited 4,
    .received 0 0 rxBufferSize bytes]

/-- The run leaves what the loop over its one buffer leaves. -/
theorem loneRun_parsed (tables : Tables World) (tx : List Byte) (world : World)
    {bytes : List Byte} (some : bytes ≠ []) (fits : bytes.length ≤ rxBufferSize)
    {left : Session World}
    (parsed : parseLoop tables (loneClient bytes) 0 bytes.length (loneSession tx world bytes) =
      (.waiting, left)) :
    loneRun tables tx world bytes =
      { (poolClientMsgs (loneClient bytes) (prepared tables 3 tx world)).2 with
        heap := Function.update (fun _ => none) 0 (.some left.client)
        txBuffer := left.txBuffer
        world := left.world
        trace := left.trace } := by
  have entry : AList.lookup 4 (AList.singleton 4 0 : AList fun _ : Fd => ClientPtr) = .some 0 := by
    decide
  have polled : ∀ trace fds, (loneClient bytes).ppoll trace fds =
      .ready fun index => if index + 1 = fds.length then 1 else 0 := fun _ _ => rfl
  have received : ∀ trace, (loneClient bytes).recv trace 4 rxBufferSize = .data bytes :=
    fun _ => if_pos ⟨some, fits⟩
  have stored : store [] 0 bytes = bytes := by simp [store]
  unfold loneRun
  simp only [loneRun_connects]
  unfold poolClientMsgs
  simp only [loneSession] at parsed
  simp [polled, visitAll, visit, if_neg healthy_ready, prepared, handleMultipleClientRequests,
    clientOf, entry, note, HwioServer.session, readFromSocket, received, parseMsgs, stored,
    putSession, cleanup, parsed]

/-- A server without buses and plugins, on devices that read as zeros. -/
def bareTables : Tables Unit where
  device _ :=
    { attach := fun world => (none, world)
      read := fun _ count world => (⟨List.replicate count 0, none⟩, world)
      write := fun _ _ world => (none, world)
      read_le := fun _ _ _ => by simp
      read_all := fun _ _ _ _ => by simp }
  buses := []
  plugins := ∅
  pluginsFast := []
  pluginsFastNames := []

/-- The same server with a bus that finds one device for every query. -/
def oneDevice : Tables Unit := { bareTables with buses := [⟨fun _ world => (.ok [0], world)⟩] }

/-- A QUERY for one item with empty texts and version 0.0.0. -/
def queryFrame : List Byte := [6, 0x8C, 1] ++ List.replicate 396 0

end HwioServer

end Hwio
