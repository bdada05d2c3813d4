import Hwio.Server.Answers
import Hwio.Server.Frames
import Hwio.Server.Passes

/-!
Contract: the reassembly of the frames of every connection.

Owns the loop over the frames of one buffer, what whole passes leave in the
buffers of all connections, and the frames that are dispatched in every run.

Does not own what the frames ask for.
-/

namespace Hwio

open Library

variable {World : Type}

namespace HwioServer

/-! ## The loop over the buffered frames -/

theorem parseLoop_empty (tables : Tables World) (sys : Sys) (client : ClientPtr) (fuel : Nat)
    {session : Session World} (empty : session.client.rxBuffer.currLen = 0) :
    parseLoop tables sys client fuel session = (.waiting, session) := by
  cases fuel with
  | zero => rfl
  | succ fuel =>
      rw [parseLoop, if_pos]
      rw [empty]
      decide

/-- As many rounds as there are bytes are enough: more change nothing. -/
theorem parseLoop_enough (tables : Tables World) (sys : Sys) (client : ClientPtr)
    {session : Session World} {fuel more : Nat} (enough : session.client.rxBuffer.currLen ≤ fuel)
    (enough' : session.client.rxBuffer.currLen ≤ more) :
    parseLoop tables sys client fuel session = parseLoop tables sys client more session := by
  induction fuel generalizing session more with
  | zero =>
      have empty := Nat.le_zero.mp enough
      rw [parseLoop_empty tables sys client 0 empty, parseLoop_empty tables sys client more empty]
  | succ fuel inductionHypothesis =>
      cases more with
      | zero =>
          have empty := Nat.le_zero.mp enough'
          rw [parseLoop_empty tables sys client (fuel + 1) empty,
            parseLoop_empty tables sys client 0 empty]
      | succ more =>
          rw [parseLoop, parseLoop]
          by_cases header : session.client.rxBuffer.currLen < sizeofHeader
          · rw [if_pos header, if_pos header]
          rw [if_neg header, if_neg header]
          by_cases body : session.client.rxBuffer.currLen < session.client.rxBuffer.msgLen
          · rw [if_pos body, if_pos body]
          rw [if_neg body, if_neg body]
          -- every round takes at least a header off the buffer
          have shorter := @handleFrame_currLen _ tables sys client session false
          have positive := msgLen_pos session.client.rxBuffer
          rcases handling : handleFrame tables sys client session with ⟨result, left⟩
          rw [handling] at shorter
          cases result with
          | error stop => rfl
          | ok disconnect =>
              cases disconnect with
              | true => rfl
              | false =>
                  have less := shorter rfl
                  simp only at less ⊢
                  apply inductionHypothesis
                  · omega
                  · omega

/-! ## All connections -/

/-- How far a connection is: about to be given up, or open, and then waiting for
the rest of a frame unless its frames are being handled. -/
def Stage (client : ClientPtr) (mode : Mode) (rest : List Byte) (history : List Event) : Prop :=
  (.handled client true ∈ history ∧ mode = .doomed client) ∨
    (.handled client true ∉ history ∧
      (mode = .serving client ∨ Incomplete sizeofHeader Frame.size rest))

/-- The bytes of a live connection are those of its frames and of its buffer. -/
structure Waiting (client : ClientPtr) (mode : Mode) (record : ClientInfo)
    (history : List Event) : Prop where
  bound : record.rxBuffer.currPtr + record.rxBuffer.currLen ≤ rxBufferSize
  stream : receivedBy client history =
    (dispatchedTo client history).flatMap Frame.bytes ++ record.rxBuffer.window
  stage : Stage client mode record.rxBuffer.window history

/-- The bytes of a connection are those of the frames dispatched to it, and some
more that make up no frame unless the connection is given up. -/
def Streamed (client : ClientPtr) (mode : Mode) (history : List Event) : Prop :=
  ∃ rest, receivedBy client history =
      (dispatchedTo client history).flatMap Frame.bytes ++ rest ∧
    (.handled client true ∉ history → mode ≠ .serving client →
      Incomplete sizeofHeader Frame.size rest)

/-- What every move keeps for a connection. -/
structure Settled (tables : Tables World) (start : Service World) (client : ClientPtr)
    (mode : Mode) (server : HwioServer World) : Prop where
  waiting : ∀ record, server.heap client = some record → Waiting client mode record server.trace
  streamed : Streamed client mode server.trace
  sane : Sane tables start client server.trace

/-- The events that are no acts on a stream. -/
def Idle : Event → Prop
  | .opened _ | .accepted _ | .created _ _ | .visited _ | .removed _ | .closed _
  | .readFreed _ => True
  | _ => False

theorem Idle.unstreamed {event : Event} (idle : Idle event) : Unstreamed event := by
  cases event <;> first | exact trivial | exact absurd idle id

/-- What is received, dispatched and handled for a connection is not changed by
idle events and by the acts of others. -/
theorem stream_unchanged {client : ClientPtr} (history : List Event) {events : List Event}
    (others : ∀ event ∈ events, Idle event ∨ actor event ≠ some client) :
    receivedBy client (history ++ events) = receivedBy client history ∧
      dispatchedTo client (history ++ events) = dispatchedTo client history ∧
      (.handled client true ∈ history ++ events ↔ .handled client true ∈ history) := by
  have received : receivedBy client events = [] := by
    refine List.flatMap_eq_nil_iff.mpr fun event member => ?_
    rcases others event member with idle | other
    · cases event <;> first | rfl | exact absurd idle id
    · cases event with
      | received owner offset room bytes => exact if_neg fun same => other (congrArg some same)
      | _ => rfl
  have dispatched : dispatchedTo client events = [] := by
    refine List.filterMap_eq_nil_iff.mpr fun event member => ?_
    rcases others event member with idle | other
    · cases event <;> first | rfl | exact absurd idle id
    · cases event with
      | dispatched owner offset header rx => exact if_neg fun same => other (congrArg some same)
      | _ => rfl
  refine ⟨?_, ?_, ?_⟩
  · rw [receivedBy_append, received, List.append_nil]
  · rw [dispatchedTo_append, dispatched, List.append_nil]
  · rw [List.mem_append]
    constructor
    · rintro (old | new)
      · exact old
      · rcases others _ new with idle | other
        · exact absurd idle id
        · exact absurd rfl other
    · exact Or.inl

theorem Sane.append_others {tables : Tables World} {start : Service World} {client : ClientPtr}
    {history events : List Event} (sane : Sane tables start client history)
    (others : ∀ event ∈ events, Idle event ∨ actor event ≠ some client) :
    Sane tables start client (history ++ events) := by
  apply sane.append_apart
  · intro event member acts
    rcases others event member with idle | other
    · cases event <;> first | exact trivial | exact absurd idle id
    · exact absurd acts other
  · intro event member
    rcases others event member with idle | other
    · cases event <;> first | exact trivial | exact absurd idle id
    · cases event with
      | dispatched owner offset header rx => exact fun same => other (congrArg some same)
      | sent owner bytes => exact fun same => other (congrArg some same)
      | _ => exact trivial

/-- A connection that has done nothing has no bytes. -/
theorem received_of_unborn {client : ClientPtr} {server : HwioServer World}
    (numbered : Numbered server) (unborn : server.nextClient ≤ client) :
    receivedBy client server.trace = [] ∧ dispatchedTo client server.trace = [] ∧
      .handled client true ∉ server.trace := by
  have inactive : ∀ event ∈ server.trace, actor event ≠ some client := by
    intro event member acting
    exact Nat.lt_irrefl client (Nat.lt_of_lt_of_le (numbered.acted event member client acting) unborn)
  obtain ⟨received, dispatched, handled⟩ := @stream_unchanged client [] server.trace
    fun event member => Or.inr (inactive event member)
  rw [List.nil_append] at received dispatched handled
  exact ⟨received, dispatched, fun member => List.not_mem_nil (handled.mp member)⟩

variable {tables : Tables World} {start : Service World} {sys : Sys}

/-- Idle events and the acts of others keep a connection settled when its
record stays, is deleted or is new. -/
theorem Settled.others {client : ClientPtr} {mode mode' : Mode}
    {before after : HwioServer World} (settled : Settled tables start client mode before)
    (numbered : Numbered before) {events : List Event}
    (trace : after.trace = before.trace ++ events)
    (others : ∀ event ∈ events, Idle event ∨ actor event ≠ some client)
    (notServed : mode ≠ .serving client)
    (records : ∀ record, after.heap client = some record →
      (before.heap client = some record ∧ mode ≠ .doomed client) ∨
        (before.nextClient ≤ client ∧ record.rxBuffer.currPtr = 0 ∧
          record.rxBuffer.currLen = 0)) :
    Settled tables start client mode' after := by
  obtain ⟨received, dispatched, handled⟩ := stream_unchanged before.trace others
  exact {
    waiting record live := by
      rw [trace]
      rcases records record live with ⟨old, healthy⟩ | ⟨unborn, front, empty⟩
      · obtain ⟨bound, stream, stage⟩ := settled.waiting record old
        refine ⟨bound, by rw [received, dispatched, stream], Or.inr ?_⟩
        rw [handled]
        rcases stage with ⟨_, doomed⟩ | ⟨opened, serving | incomplete⟩
        · exact absurd doomed healthy
        · exact absurd serving notServed
        · exact ⟨opened, Or.inr incomplete⟩
      · obtain ⟨noBytes, noFrames, opened⟩ := received_of_unborn numbered unborn
        have window : record.rxBuffer.window = [] := by
          rw [RxBuffer.window, empty, load_zero]
        refine ⟨by rw [front, empty]; decide, ?_, Or.inr ⟨?_, Or.inr ?_⟩⟩
        · rw [received, dispatched, noBytes, noFrames, window]
          rfl
        · rw [handled]
          exact opened
        · rw [window]
          exact Or.inl (by decide)
    streamed := by
      obtain ⟨rest, stream, incomplete⟩ := settled.streamed
      rw [trace]
      refine ⟨rest, by rw [received, dispatched, stream], fun opened _ => ?_⟩
      rw [handled] at opened
      exact incomplete opened notServed
    sane := by
      rw [trace]
      exact Sane.append_others settled.sane others }

/-- The connection that was worked on is settled by what is left of it. -/
theorem Settled.own {client : ClientPtr} {mode : Mode} {session : Session World}
    (server : HwioServer World) (streaming : Streaming tables start client session)
    (stage : Stage client mode session.client.rxBuffer.window session.trace) :
    Settled tables start client mode (server.putSession client session) where
  waiting record live := by
    rw [putSession_heap] at live
    cases live
    exact ⟨streaming.bound, streaming.stream, stage⟩
  streamed := by
    refine ⟨_, streaming.stream, fun opened notServed => ?_⟩
    rcases stage with ⟨handled, _⟩ | ⟨_, serving | incomplete⟩
    · exact absurd handled opened
    · exact absurd serving notServed
    · exact incomplete
  sane := streaming.sane

theorem Settled.opened {client : ClientPtr} {mode : Mode} {server : HwioServer World}
    (settled : Settled tables start client mode server) {record : ClientInfo}
    (live : server.heap client = some record) (healthy : mode ≠ .doomed client) :
    .handled client true ∉ server.trace := by
  rcases (settled.waiting record live).stage with ⟨_, doomed⟩ | ⟨opened, _⟩
  · exact absurd doomed healthy
  · exact opened

theorem Settled.incomplete {client : ClientPtr} {mode : Mode} {server : HwioServer World}
    (settled : Settled tables start client mode server) {record : ClientInfo}
    (live : server.heap client = some record) (healthy : mode ≠ .doomed client)
    (notServed : mode ≠ .serving client) :
    Incomplete sizeofHeader Frame.size record.rxBuffer.window := by
  rcases (settled.waiting record live).stage with ⟨_, doomed⟩ | ⟨_, serving | incomplete⟩
  · exact absurd doomed healthy
  · exact absurd serving notServed
  · exact incomplete

/-- The connection of a session is where its history tells. -/
theorem Known.streaming {server : HwioServer World} (known : Known tables start server)
    {client : ClientPtr} {mode : Mode} (settled : Settled tables start client mode server)
    {record : ClientInfo} (live : server.heap client = some record) :
    Streaming tables start client (server.session record) where
  follows := known.request live
  bound := (settled.waiting record live).bound
  stream := (settled.waiting record live).stream
  sane := settled.sane

/-! ## The moves of a pass -/

theorem idle_closeOnDelete (client : ClientPtr) (fd : Fd) :
    ∀ event ∈ .removed client :: closeOnDelete fd, Idle event := by
  intro event member
  rcases mem_deletion member with rfl | rfl
  · exact trivial
  · exact trivial

theorem Notice.idle {event : Event} (notice : Notice event) : Idle event := by
  cases event <;> first | exact trivial | exact absurd notice id

/-- Work on another connection. -/
theorem Settled.put_other {client other : ClientPtr} (apart : client ≠ other) {mode mode' : Mode}
    {server : HwioServer World} (settled : Settled tables start client mode server)
    (numbered : Numbered server) (notServed : mode ≠ .serving client)
    (healthy : mode ≠ .doomed client) {session : Session World}
    (traffic : Traffic other (server.session record) session) :
    Settled tables start client mode' (server.putSession other session) := by
  obtain ⟨events, trace, own⟩ := traffic.trace
  refine settled.others numbered (show (server.putSession other session).trace =
    server.trace ++ events from trace) ?_ notServed ?_
  · intro event member
    right
    rw [(own event member).2]
    exact fun same => apart (Option.some.inj same).symm
  · intro record live
    simp only [putSession, Function.update_of_ne apart] at live
    exact Or.inl ⟨live, healthy⟩

/-- Every move keeps a connection settled whose frames are handled tamely. -/
theorem Move.settled {client : ClientPtr} {mode mode' : Mode} {before after : HwioServer World}
    (move : Move sys before mode mode' after) (known : Known tables start before)
    (tame : Justified (Tame tables start client) after.trace)
    (settled : Settled tables start client mode before) :
    Settled tables start client mode' after := by
  have numbered := known.numbered
  cases move with
  | noted event notice =>
      refine settled.others numbered (show (note event before).trace = _ from rfl) ?_ (by simp) ?_
      · intro other member
        rw [List.mem_singleton.mp member]
        exact Or.inl (Notice.idle notice)
      · exact fun record live => Or.inl ⟨live, by simp⟩
  | allocated socket =>
      refine settled.others numbered (show (allocClient sys socket before).trace = _ from rfl)
        ?_ (by simp) ?_
      · intro event member
        rw [List.mem_singleton.mp member]
        exact Or.inl trivial
      · intro record live
        rcases allocClient_live live with ⟨rfl, rfl⟩ | ⟨_, there⟩
        · exact Or.inr ⟨Nat.le_refl _, rfl, rfl⟩
        · exact Or.inl ⟨there, by simp⟩
  | listed socket other => exact ⟨settled.waiting, settled.streamed, settled.sane⟩
  | queued fd => exact ⟨settled.waiting, settled.streamed, settled.sane⟩
  | cleaned => exact ⟨settled.waiting, settled.streamed, settled.sane⟩
  | dropped other record live =>
      refine settled.others numbered (show (deleteClient other record before).trace = _ from rfl)
        ?_ (by simp) ?_
      · exact fun event member => Or.inl (idle_closeOnDelete other record.fd event member)
      · exact fun left there => Or.inl ⟨(deleteClient_live there).2, by simp⟩
  | removed other record live =>
      refine settled.others numbered (show (deleteClient other record before).trace = _ from rfl)
        ?_ (by simp) ?_
      · exact fun event member => Or.inl (idle_closeOnDelete other record.fd event member)
      · intro left there
        obtain ⟨apart, was⟩ := deleteClient_live there
        refine Or.inl ⟨was, fun doomed => ?_⟩
        cases doomed
        exact apart rfl
  | received other record live came =>
      by_cases apart : client = other
      · subst apart
        obtain ⟨streaming, _, unhandled⟩ :=
          readFromSocket_streaming sys (known.streaming settled live)
        refine Settled.own before streaming (Or.inr ⟨unhandled ?_, Or.inl rfl⟩)
        exact settled.opened live (by simp)
      · exact settled.put_other apart numbered (by simp) (by simp)
          (readFromSocket_traffic sys other (before.session record))
  | failed other record live ended =>
      by_cases apart : client = other
      · subst apart
        obtain ⟨streaming, kept, unhandled⟩ :=
          readFromSocket_streaming sys (known.streaming settled live)
        refine Settled.own before streaming (Or.inr ⟨unhandled ?_, Or.inr ?_⟩)
        · exact settled.opened live (by simp)
        · rw [kept ended]
          exact settled.incomplete live (by simp) (by simp)
      · exact settled.put_other apart numbered (by simp) (by simp)
          (readFromSocket_traffic sys other (before.session record))
  | waits other record live incomplete =>
      by_cases apart : client = other
      · subst apart
        have own : Settled tables start client .idle
            (before.putSession client (before.session record)) :=
          Settled.own before (known.streaming settled live)
            (Or.inr ⟨settled.opened live (by simp), Or.inr (incomplete_iff.mpr incomplete)⟩)
        rw [putSession_session before live] at own
        exact own
      · refine settled.others numbered (List.append_nil _).symm (by simp) (by simp [Ne.symm apart]) ?_
        exact fun record live => Or.inl ⟨live, by simp⟩
  | answered other record live complete mode' ended =>
      by_cases apart : client = other
      · subst apart
        have unchanged := known.unchanged
        subst unchanged
        obtain ⟨events, rxBuffer, session, _⟩ :=
          handleFrame_session before.tables sys client (before.session record)
        obtain ⟨disconnect, ok, streaming, handled⟩ := handleFrame_streaming sys
          (known.streaming settled live) (settled.opened live (by simp)) complete.2
          (tame before.trace _ _ (congrArg Session.trace session))
        rw [ok] at ended
        cases disconnect with
        | true =>
            subst ended
            exact Settled.own before streaming (Or.inl ⟨handled.mpr rfl, rfl⟩)
        | false =>
            subst ended
            refine Settled.own before streaming (Or.inr ⟨?_, Or.inl rfl⟩)
            rw [handled]
            exact Bool.false_ne_true
      · exact settled.put_other apart numbered (by simp [Ne.symm apart]) (by simp)
          (handleFrame_traffic before.tables sys other (before.session record))

/-! ## Runs -/

/-- A dispatched frame is the one behind those that were dispatched before. -/
def InOrder (client : ClientPtr) (front : List Event) : Event → Prop
  | .dispatched owner _ header rx =>
    owner = client → ∃ rest, receivedBy client front =
      (dispatchedTo client front ++ [Frame.received header rx]).flatMap Frame.bytes ++ rest
  | _ => True

/-- What every run keeps for a connection, as long as its frames are handled
tamely. -/
structure Orderly (tables : Tables World) (start : Service World) (client : ClientPtr)
    (mode : Mode) (server : HwioServer World) : Prop where
  known : Known tables start server
  settled : Justified (Tame tables start client) server.trace →
    Settled tables start client mode server
  inOrder : Justified (fun front event =>
    Justified (Tame tables start client) front → InOrder client front event) server.trace

theorem Move.orderly {client : ClientPtr} {mode mode' : Mode} {before after : HwioServer World}
    (move : Move sys before mode mode' after)
    (orderly : Orderly tables start client mode before) :
    Orderly tables start client mode' after := by
  obtain ⟨events, trace, asks⟩ := Move.appends move
  exact {
    known := Move.known move orderly.known
    settled tame := by
      refine Move.settled move orderly.known tame (orderly.settled ?_)
      rw [trace] at tame
      exact ((justified_append_iff _ _).mp tame).1
    inOrder := by
      rw [trace]
      refine (justified_append_iff _ _).mpr ⟨orderly.inOrder, fun front event back split => ?_⟩
      cases event with
      | dispatched owner offset header rx =>
          obtain ⟨rfl, serving, record, live, complete, rfl, rfl, rfl⟩ :=
            asks front back owner offset header rx split
          rw [List.append_nil]
          rintro tame rfl
          have stream := ((orderly.settled tame).waiting record live).stream
          rw [window_eq_frame complete, ← List.append_assoc] at stream
          refine ⟨load record.rxBuffer.buffer (record.rxBuffer.currPtr + record.rxBuffer.msgLen)
            (record.rxBuffer.currLen - record.rxBuffer.msgLen), ?_⟩
          rw [stream, List.flatMap_append, List.flatMap_singleton]
          rfl
      | _ => exact fun _ => trivial }

theorem Within.orderly {tables : Tables World} {master : Fd} {tx : List Byte} {world : World}
    {mode : Mode} {server : HwioServer World}
    (within : Within (prepared tables master tx world) mode server) (client : ClientPtr) :
    Orderly tables (prepared tables master tx world).service client mode server := by
  refine @Within.moving _ _ _ _
    (Orderly tables (prepared tables master tx world).service client) within ?_
    fun sys before after mode mode' move => Move.orderly move
  have quiet : ∀ event ∈ (prepared tables master tx world).trace,
      Idle event ∨ actor event ≠ some client := by
    intro event member
    rw [List.mem_singleton.mp member]
    exact Or.inl trivial
  have empty : Sane tables (prepared tables master tx world).service client [] :=
    ⟨(fun event member => by cases member), [], rfl, fun _ => rfl⟩
  exact {
    known := Reached.known .start
    settled _ := ⟨(fun record live => by cases live),
      ⟨[], rfl, fun _ _ => Or.inl (by decide)⟩, Sane.append_others empty quiet⟩
    inOrder := justified_singleton fun _ => trivial }

theorem Reached.orderly {tables : Tables World} {master : Fd} {tx : List Byte} {world : World}
    {server : HwioServer World} (reached : Reached (prepared tables master tx world) server)
    (client : ClientPtr) :
    Orderly tables (prepared tables master tx world).service client .idle server :=
  Within.orderly ⟨loneClient [], server, reached, .refl⟩ client

/-- A connection is settled in every run in which its frames are handled tamely. -/
theorem Reached.settled {tables : Tables World} {master : Fd} {tx : List Byte} {world : World}
    {server : HwioServer World} (reached : Reached (prepared tables master tx world) server)
    {client : ClientPtr}
    (tame : Justified (Tame tables (prepared tables master tx world).service client)
      server.trace) :
    Settled tables (prepared tables master tx world).service client .idle server :=
  (reached.orderly client).settled tame

/-- In every run in which `handle_msg` returns, leaves the bytes behind each
frame alone and touches nothing that ends behind the buffer, whatever the passes
are made of: when the bytes of a connection come from a sequence of frames that
fit the buffer, however they are cut, the frames dispatched for it are the first
ones of the sequence, and the bytes left are a strict part of the next one,
unless the connection is given up.  A frame is dispatched only while none before
it was answered with an end, and then answered at once.  Whatever lies behind
the buffer does not matter and is left, a live connection is not given up and
has room for more bytes, and the loop needs no more rounds than there are
bytes. -/
theorem streams_reassembled {tables : Tables World} {master : Fd} {tx : List Byte} {world : World}
    {server : HwioServer World} (reached : Reached (prepared tables master tx world) server)
    (harmless : Justified (Harmless tables (prepared tables master tx world).service) server.trace)
    (touches : Justified (TouchesInside tables (prepared tables master tx world).service)
      server.trace)
    (client : ClientPtr) (frames : List Frame)
    (short : ∀ frame ∈ frames, frame.bytes.length ≤ rxBufferSize)
    (sent : receivedBy client server.trace <+: frames.flatMap Frame.bytes) :
    let start := (prepared tables master tx world).service
    (∃ count, dispatchedTo client server.trace = frames.take count ∧
      (.handled client true ∉ server.trace →
        ∃ rest, receivedBy client server.trace = (frames.take count).flatMap Frame.bytes ++ rest ∧
          (rest = [] ∨ ∃ next, frames[count]? = some next ∧ rest <+: next.bytes ∧
            rest.length < next.bytes.length) ∧
          ∀ record, server.heap client = some record → record.rxBuffer.window = rest)) ∧
      (∀ record, server.heap client = some record →
        .handled client true ∉ server.trace ∧
          record.rxBuffer.currPtr + record.rxBuffer.currLen ≤ rxBufferSize ∧
          record.rxBuffer.currLen < rxBufferSize) ∧
      (∀ front offset header rx back,
        server.trace = front ++ .dispatched client offset header rx :: back →
          .handled client true ∉ front ∧
            let answer := handleMsg tables header ((start.after tables front).request client rx)
            ∃ res middle disconnect rest, answer.1 = .ok res ∧
              back = middle ++ .handled client disconnect :: rest ∧
              (∀ event ∈ middle,
                (∃ call, event = .called client call) ∨ ∃ part, event = .sent client part) ∧
              (disconnect = false ↔
                res.disconnect = false ∧ sentIn middle = load answer.2.tx 0 res.txSize)) ∧
      Justified (StaysInside tables start) server.trace ∧
      ∀ (sys : Sys) (session : Session World) fuel, session.client.rxBuffer.currLen ≤ fuel →
        parseLoop tables sys client fuel session =
          parseLoop tables sys client session.client.rxBuffer.currLen session := by
  intro start
  have settledAll : ∀ client, Settled tables start client .idle server := fun client =>
    reached.settled fun front event back split => (harmless front event back split).tame client
  have settled := settledAll client
  obtain ⟨rest, stream, incomplete⟩ := settled.streamed
  rw [stream] at sent
  obtain ⟨later, split, behind⟩ := Frame.selfDelimiting.words_eq sent
  have dispatched : dispatchedTo client server.trace =
      frames.take (dispatchedTo client server.trace).length := by
    rw [split, List.take_left]
  have next : Incomplete sizeofHeader Frame.size rest →
      rest = [] ∨ ∃ next, frames[(dispatchedTo client server.trace).length]? = some next ∧
        rest <+: next.bytes ∧ rest.length < next.bytes.length := by
    intro waits
    rcases Frame.selfDelimiting.pending_lt behind waits with none | ⟨next, more, same, part, less⟩
    · exact Or.inl none
    · refine Or.inr ⟨next, ?_, part, less⟩
      rw [split, same, List.getElem?_append_right (Nat.le_refl _), Nat.sub_self]
      rfl
  have windows : ∀ record, server.heap client = some record → record.rxBuffer.window = rest := by
    intro record live
    have own := (settled.waiting record live).stream
    rw [stream] at own
    exact (List.append_cancel_left own).symm
  refine ⟨⟨_, dispatched, fun opened => ⟨rest, ?_, next (incomplete opened nofun), windows⟩⟩,
    ?_, ?_, ?_, ?_⟩
  · rw [← dispatched]
    exact stream
  · intro record live
    refine ⟨settled.opened live nofun, (settled.waiting record live).bound, ?_⟩
    have length : record.rxBuffer.currLen = rest.length := by
      rw [← windows record live, RxBuffer.window_length]
    rcases next (incomplete (settled.opened live nofun) nofun) with none | ⟨frame, at_count, _, less⟩
    · rw [length, none]
      decide
    · have fits := short frame (List.mem_of_getElem? at_count)
      omega
  · intro front offset header rx back split'
    refine ⟨fun handled => ?_, ?_⟩
    · cases reached.answers_ended.2.silent front _ back split' client rfl handled
    · obtain ⟨⟨res, ok⟩, _⟩ := harmless front _ back split'
      obtain ⟨sent, disconnect, rest', answer, onlySent, _, decided⟩ :=
        reached.answers_ended.1 front _ back split' res ok
      refine ⟨res, List.map (.called client) _ ++ sent, disconnect, rest', ok,
        answer.trans (List.append_assoc ..).symm, ?_, ?_⟩
      · intro event member
        rcases List.mem_append.mp member with call | part
        · obtain ⟨made, _, rfl⟩ := List.mem_map.mp call
          exact Or.inl ⟨made, rfl⟩
        · exact Or.inr (onlySent event part)
      · rw [sentIn_append, sentIn_calls, List.nil_append]
        exact decided
  · intro front event back split
    refine Inside.stays ?_ (touches front event back split)
    have member : event ∈ server.trace := by
      rw [split]
      exact List.mem_append_right _ List.mem_cons_self
    cases acts : actor event with
    | some owner => exact (settledAll owner).sane.inside event member acts
    | none => cases event <;> first | exact trivial | cases acts
  · intro sys session fuel enough
    exact parseLoop_enough tables sys client enough (Nat.le_refl _)

/-- The frames of a run are handled without harm. -/
def harmlessRun (tables : Tables World) (start : Service World) (history : List Event) : Bool :=
  (List.range history.length).all fun index =>
    match history[index]? with
    | some (.dispatched client _ header rx) =>
      let front := history.take index
      let answer := handleMsg tables header ((start.after tables front).request client rx)
      let bodyLen := header.bodyLen.toNat
      let behind := unprocessed client front - (sizeofHeader + bodyLen)
      answer.1.isOk && load answer.2.rx bodyLen behind = load rx bodyLen behind
    | _ => true

theorem harmless_of_harmlessRun {tables : Tables World} {start : Service World}
    {history : List Event} (run : harmlessRun tables start history = true) :
    Justified (Harmless tables start) history := by
  intro front event back split
  cases event with
  | dispatched client offset header rx =>
      have inside : front.length ∈ List.range history.length := by
        rw [List.mem_range, split, List.length_append, List.length_cons]
        omega
      have here := List.all_eq_true.mp run front.length inside
      have event : history[front.length]? = some (.dispatched client offset header rx) := by
        rw [split, List.getElem?_append_right (Nat.le_refl _), Nat.sub_self]
        rfl
      have before : history.take front.length = front := by
        rw [split, List.take_left]
      simp only [event, before, Bool.and_eq_true, decide_eq_true_eq] at here
      refine ⟨?_, here.2⟩
      cases result : (handleMsg tables header ((start.after tables front).request client rx)).1 with
      | ok res => exact ⟨res, rfl⟩
      | error stop =>
          rw [result] at here
          cases here.1
  | _ => exact trivial

theorem ping_and_part_reassembled :
    let server := loneRun bareTables [] () [4, 0, 0, 4, 0]
    ∃ count, dispatchedTo 0 server.trace = [⟨4, [], by decide⟩, ⟨4, [], by decide⟩].take count := by
  intro server
  have harmless : harmlessRun bareTables (prepared bareTables 3 [] ()).service server.trace = true := by
    decide +kernel
  have sent : receivedBy 0 server.trace <+:
      [(⟨4, [], by decide⟩ : Frame), ⟨4, [], by decide⟩].flatMap Frame.bytes := by
    decide +kernel
  have touches : Justified (TouchesInside bareTables (prepared bareTables 3 [] ()).service)
      server.trace := by
    decide +kernel
  obtain ⟨⟨count, dispatched, _⟩, _⟩ := streams_reassembled (loneRun_reached bareTables [] () _)
    (harmless_of_harmlessRun harmless) touches 0 [⟨4, [], by decide⟩, ⟨4, [], by decide⟩]
    (by decide) sent
  exact ⟨count, dispatched⟩

/-! ## A frame at the end of the buffer -/

/-- A window that starts with a frame: its header is read there, and the rest of
the window lies behind it. -/
theorem window_starts {rx : RxBuffer} {frame : Frame} {rest : List Byte}
    (window : rx.window = frame.bytes ++ rest) :
    HwioPacketHeader.at rx.buffer rx.currPtr = frame.header ∧
      rx.msgLen = frame.bytes.length ∧ rx.msgLen ≤ rx.currLen ∧
      load rx.buffer (rx.currPtr + rx.msgLen) (rx.currLen - rx.msgLen) = rest := by
  have total : rx.currLen = frame.bytes.length + rest.length := by
    rw [← RxBuffer.window_length, window, List.length_append]
  rw [RxBuffer.window, total] at window
  obtain ⟨front, behind⟩ := load_parts window rfl
  rw [frame.bytes_length, Frame.bytes] at front
  have header := HwioPacketHeader.at_of_load
    (load_parts front (HwioPacketHeader.bytes_length _)).1
  have size : rx.msgLen = frame.bytes.length := by
    rw [RxBuffer.msgLen, header, frame.header_bodyLen_toNat, frame.bytes_length]
  refine ⟨header, size, by omega, ?_⟩
  rw [size, total, Nat.add_sub_cancel_left]
  exact behind

/-- A connection whose MSG was handled. -/
def terminated (client : ClientPtr) (session : Session World) : Session World :=
  session.consumed client
    (session.request.reading (store session.request.rx (4 + (maxNameLen - 1)) [0]))
    [.handled client false]

theorem terminated_trace (client : ClientPtr) (session : Session World) :
    (terminated client session).trace = session.trace ++
      [.dispatched client session.client.rxBuffer.currPtr
          (HwioPacketHeader.at session.client.rxBuffer.buffer session.client.rxBuffer.currPtr)
          session.request.rx,
        .handled client false] := by
  show (session.trace ++ _ :: []) ++ [.handled client false] = _
  rw [List.append_assoc]
  rfl

theorem parseLoop_msg (tables : Tables World) (sys : Sys) (client : ClientPtr)
    {session : Session World} {frame : Frame} {rest : List Byte}
    (window : session.client.rxBuffer.window = frame.bytes ++ rest)
    (msg : frame.command = HwioCmd.msg.code) (fuel : Nat) :
    parseLoop tables sys client (fuel + 1) session =
      parseLoop tables sys client fuel (terminated client session) := by
  obtain ⟨header, size, complete, _⟩ := window_starts window
  have enough : sizeofHeader ≤ session.client.rxBuffer.currLen :=
    Nat.le_trans (Nat.le_add_right _ _) complete
  have handled : handleFrame tables sys client session =
      (.ok false, terminated client session) := by
    unfold handleFrame
    simp only [header]
    rw [handleMsg_msg tables session.request msg]
    simp [sendReply, terminated, Session.consumed, Session.afterMsg]
  rw [parseLoop, if_neg (Nat.not_lt.mpr enough), if_neg (Nat.not_lt.mpr complete), handled]

/-- The lone client sends two MSGs, the first with room for its terminator. -/
theorem loneRun_msgs (tables : Tables World) (tx : List Byte) (world : World)
    {first last : Frame} (msg : first.command = HwioCmd.msg.code)
    (msg' : last.command = HwioCmd.msg.code) (long : 4 + maxNameLen ≤ first.body.length)
    (fits : (first.bytes ++ last.bytes).length ≤ rxBufferSize) :
    ∃ rx rx', (loneRun tables tx world (first.bytes ++ last.bytes)).trace =
      (loneSession tx world (first.bytes ++ last.bytes)).trace ++
        [.dispatched 0 0 first.header rx, .handled 0 false] ++
          [.dispatched 0 first.bytes.length last.header rx', .handled 0 false] := by
  let session := loneSession tx world (first.bytes ++ last.bytes)
  have window : session.client.rxBuffer.window = first.bytes ++ last.bytes := load_whole _
  obtain ⟨header, size, complete, behind⟩ := window_starts window
  have window' : (terminated 0 session).client.rxBuffer.window = last.bytes ++ [] := by
    rw [List.append_nil, ← behind]
    apply consumed_window
    apply load_store_apart
    right
    rw [header, first.header_bodyLen_toNat]
    exact long
  obtain ⟨header', size', complete', behind'⟩ := window_starts window'
  obtain ⟨fuel, count⟩ : ∃ fuel, (first.bytes ++ last.bytes).length = fuel + 1 + 1 := by
    refine ⟨(first.bytes ++ last.bytes).length - 2, ?_⟩
    rw [List.length_append, first.bytes_length, last.bytes_length]
    simp only [sizeofHeader]
    omega
  have parsed : parseLoop tables (loneClient (first.bytes ++ last.bytes)) 0
      (first.bytes ++ last.bytes).length session =
        (.waiting, terminated 0 (terminated 0 session)) := by
    rw [count, parseLoop_msg tables _ 0 window msg, parseLoop_msg tables _ 0 window' msg']
    apply parseLoop_empty
    have rest := congrArg List.length behind'
    rw [load_length] at rest
    exact rest
  refine ⟨session.request.rx, (terminated 0 session).request.rx, ?_⟩
  have some : first.bytes ++ last.bytes ≠ [] := by
    intro none
    rw [none] at count
    cases count
  rw [loneRun_parsed tables tx world some fits parsed]
  have offset : (terminated 0 session).client.rxBuffer.currPtr = first.bytes.length :=
    (Nat.zero_add _).trans size
  simp only
  rw [terminated_trace, terminated_trace, header, header', offset]
  rfl

/-- Such a run is harmless: the second MSG is the last that came. -/
theorem loneRun_msgs_harmless (tables : Tables World) (tx : List Byte) (world : World)
    {first last : Frame} (msg : first.command = HwioCmd.msg.code)
    (msg' : last.command = HwioCmd.msg.code) (long : 4 + maxNameLen ≤ first.body.length)
    (fits : (first.bytes ++ last.bytes).length ≤ rxBufferSize) :
    Justified (Harmless tables (prepared tables 3 tx world).service)
        (loneRun tables tx world (first.bytes ++ last.bytes)).trace ∧
      receivedBy 0 (loneRun tables tx world (first.bytes ++ last.bytes)).trace =
        first.bytes ++ last.bytes := by
  obtain ⟨rx, rx', trace⟩ := loneRun_msgs tables tx world msg msg' long fits
  have received : receivedBy 0 (loneSession tx world (first.bytes ++ last.bytes)).trace =
      first.bytes ++ last.bytes := by
    simp [receivedBy, loneSession]
  have stored : ∀ {header : HwioPacketHeader} (ctx : Ctx World),
      header.command = HwioCmd.msg.code → ∃ res, (handleMsg tables header ctx).1 = .ok res := by
    intro header ctx isMsg
    exact ⟨⟨false, 0⟩, congrArg Prod.fst (handleMsg_msg tables ctx isMsg)⟩
  rw [trace]
  refine ⟨?_, by rw [receivedBy_append, receivedBy_append, received]; simp [receivedBy]⟩
  refine ((justified_nil.append_free ?_).append_pair ?_ trivial).append_pair ?_ trivial
  · intro event member front
    simp only [List.mem_cons, List.not_mem_nil, or_false] at member
    rcases member with rfl | rfl | rfl | rfl | rfl | rfl <;> exact trivial
  · refine ⟨stored _ msg, ?_⟩
    rw [handleMsg_msg tables _ msg]
    apply load_store_apart
    right
    rw [first.header_bodyLen_toNat]
    exact long
  · refine ⟨stored _ msg', ?_⟩
    -- nothing is behind the second one
    have taken : (dispatchedTo 0 ((loneSession tx world (first.bytes ++ last.bytes)).trace ++
        [.dispatched 0 0 first.header rx, .handled 0 false])).flatMap Frame.bytes =
          (Frame.received first.header rx).bytes := by
      simp [dispatchedTo, loneSession]
    have behind : unprocessed 0 ((loneSession tx world (first.bytes ++ last.bytes)).trace ++
        [.dispatched 0 0 first.header rx, .handled 0 false]) -
          (sizeofHeader + last.header.bodyLen.toNat) = 0 := by
      rw [unprocessed, taken, receivedBy_append, received]
      simp only [receivedBy, List.flatMap_cons, List.flatMap_nil, List.append_nil,
        List.length_append, Frame.bytes_length, Frame.received_body, load_length,
        Frame.header_bodyLen_toNat]
      omega
    have none : ∀ memory : List Byte, load memory last.header.bodyLen.toNat
        (unprocessed 0 ((loneSession tx world (first.bytes ++ last.bytes)).trace ++
          [.dispatched 0 0 first.header rx, .handled 0 false]) -
            (sizeofHeader + last.header.bodyLen.toNat)) = [] := by
      intro memory
      rw [behind, load_zero]
    exact (none _).trans (none _).symm

/-- Two MSGs that fill the buffer but for 122 bytes. -/
def msgsAtTheEnd : List Frame :=
  [⟨9, List.replicate 65407 0, by rw [List.length_replicate]; decide⟩, ⟨9, [0], by decide⟩]

/-- The terminator of the second one is stored behind the buffer. -/
theorem terminator_stored_outside :
    let bytes := msgsAtTheEnd.flatMap Frame.bytes
    let start := prepared bareTables 3 [] ()
    let server := loneRun bareTables [] () bytes
    Reached start server ∧ Justified (Harmless bareTables start.service) server.trace ∧
      (∀ frame ∈ msgsAtTheEnd, frame.bytes.length ≤ rxBufferSize) ∧
      receivedBy 0 server.trace = bytes ∧
      ¬ Justified (StaysInside bareTables start.service) server.trace := by
  intro bytes start server
  let first : Frame := ⟨9, List.replicate 65407 0, by rw [List.length_replicate]; decide⟩
  let last : Frame := ⟨9, [0], by decide⟩
  have body : first.body.length = 65407 := List.length_replicate
  have length : first.bytes.length = 65410 := by
    rw [first.bytes_length, body, sizeofHeader]
  have long : 4 + maxNameLen ≤ first.body.length := by
    rw [body]
    decide
  have fits : (first.bytes ++ last.bytes).length ≤ rxBufferSize := by
    rw [List.length_append, length]
    decide
  have split : bytes = first.bytes ++ last.bytes := by
    simp only [bytes, msgsAtTheEnd, List.flatMap_cons, List.flatMap_nil, List.append_nil]
    rfl
  obtain ⟨harmless, received⟩ := loneRun_msgs_harmless bareTables [] () rfl rfl long fits
  rw [← split] at harmless received
  refine ⟨loneRun_reached .., harmless, ?_, received, fun stays => ?_⟩
  · intro frame member
    rcases List.mem_cons.mp member with rfl | tail
    · rw [show Frame.bytes _ = first.bytes from rfl, length]
      decide
    · rw [List.mem_singleton.mp tail]
      decide
  · obtain ⟨rx, rx', trace⟩ := loneRun_msgs bareTables [] () rfl rfl long fits
    rw [← split] at trace
    have stored := (stays _ _ _ trace).2
    have room := (enclosed_msg_iff bareTables _ rfl _).mp stored
    rw [length] at room
    exact absurd room (by decide)

end HwioServer

end Hwio
