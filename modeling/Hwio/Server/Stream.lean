import Hwio.Server.Msg

/-!
Contract: the receive side of one client connection in `hwio_server.cpp`.

Owns the results of system calls, `read_from_socket`, the sending of a reply
and the loop of `parse_msgs` over the frames of one receive buffer.

A result of a system call is the first one that is not to be retried: on
`EAGAIN`, `EWOULDBLOCK` and `EINTR` the source repeats the same call.
-/

namespace Hwio

open Library

/-! ## System calls -/

inductive RecvRes where
  | data (bytes : List Byte)
  | closed
  | failed
deriving DecidableEq, Repr

inductive SendRes where
  | sent (count : Nat)
  | failed
deriving DecidableEq, Repr

inductive PollRes where
  | timeout
  | interrupted
  | failed (errno : Nat)
  | ready (revents : Nat → UInt16)

/-- The effect of an event on the descriptors that are open. -/
def openFdsStep (fds : List Fd) : Event → List Fd
  | .opened fd => fd :: fds
  | .accepted fd => fd :: fds
  | .closed fd => fds.filter (· ≠ fd)
  | _ => fds

/-- The sockets that are open after a history. -/
def openFds (trace : List Event) : List Fd := trace.foldl openFdsStep []

/-- The operating system: every call is answered from the history of the run,
so that all orders of answers occur.  `newBuffer` is what a fresh allocation
holds, and `freedFd` what a deleted record with the given descriptor reads as. -/
structure Sys where
  ppoll : List Event → List Fd → PollRes
  accept : List Event → Option Fd
  recv : List Event → Fd → Nat → RecvRes
  send : List Event → Fd → List Byte → SendRes
  newBuffer : List Event → List Byte
  freedFd : List Event → Fd → Fd
  accept_fresh : ∀ trace fd, accept trace = some fd → 0 ≤ fd ∧ fd ∉ openFds trace
  recv_bounds : ∀ trace fd room bytes, recv trace fd room = .data bytes →
    bytes ≠ [] ∧ bytes.length ≤ room
  send_pos : ∀ trace fd bytes count, send trace fd bytes = .sent count → 0 < count

/-! ## One connection -/

/-- What the receive side of one connection reads and changes. -/
structure Session (World : Type) where
  client : ClientInfo
  txBuffer : List Byte
  world : World
  trace : List Event

variable {World : Type}

/-- `HwioServer::read_from_socket`; the result tells whether bytes came. -/
def readFromSocket (sys : Sys) (ptr : ClientPtr) (session : Session World) :
    Bool × Session World :=
  let rx := session.client.rxBuffer
  let moved : Bool := 0 < rx.currLen && rx.currPtr ≠ 0
  let buffer := if moved then copyUp rx.buffer 0 rx.currPtr rx.currLen else rx.buffer
  let trace :=
    if moved then session.trace ++ [.copied ptr rx.currPtr rx.currLen] else session.trace
  let rdPtr := rx.currLen
  let rdLen := rxBufferSize - rx.currLen
  match sys.recv trace session.client.fd rdLen with
  | .data bytes =>
    (true, { session with
      client := { session.client with
        rxBuffer := ⟨store buffer rdPtr bytes, 0, rx.currLen + bytes.length⟩ }
      trace := trace ++ [.received ptr rdPtr rdLen bytes] })
  | _ =>
    (false, { session with
      client := { session.client with rxBuffer := ⟨buffer, 0, rx.currLen⟩ }
      trace := trace })

/-- The `send` loop over the bytes of a reply that are not sent yet; the result
tells whether all of them were. -/
def sendReply (sys : Sys) (fd : Fd) (ptr : ClientPtr) :
    Nat → List Byte → List Event → Bool × List Event
  | _, [], trace => (true, trace)
  | 0, _ :: _, trace => (false, trace)
  | fuel + 1, byte :: rest, trace =>
      match sys.send trace fd (byte :: rest) with
      | .failed => (false, trace)
      | .sent count =>
        sendReply sys fd ptr fuel ((byte :: rest).drop count)
          (trace ++ [.sent ptr ((byte :: rest).take count)])

/-- The length of the message at `curr_ptr`: header and body. -/
def RxBuffer.msgLen (rx : RxBuffer) : Nat :=
  sizeofHeader + (HwioPacketHeader.at rx.buffer rx.currPtr).bodyLen.toNat

/-- The request at `curr_ptr`, as `handle_msg` gets it. -/
def Session.request (session : Session World) : Ctx World where
  rx := session.client.rxBuffer.buffer.drop (session.client.rxBuffer.currPtr + sizeofHeader)
  tx := session.txBuffer
  devices := session.client.devices
  world := session.world
  calls := []

/-- What `handle_msg` left, put back into the connection. -/
def Session.afterMsg (ptr : ClientPtr) (session : Session World) (ctx : Ctx World) :
    Session World :=
  let rx := session.client.rxBuffer
  let bodyAt := rx.currPtr + sizeofHeader
  let header := HwioPacketHeader.at rx.buffer rx.currPtr
  { client := { session.client with
      rxBuffer := { rx with buffer := rx.buffer.takeD bodyAt 0 ++ ctx.rx }
      devices := ctx.devices }
    txBuffer := ctx.tx
    world := ctx.world
    trace := session.trace ++
      .dispatched ptr rx.currPtr header session.request.rx :: ctx.calls.map (.called ptr) }

/-- The part of the `parse_msgs` loop that handles a complete message; the
result tells whether the client is to be disconnected. -/
def handleFrame (tables : Tables World) (sys : Sys) (ptr : ClientPtr)
    (session : Session World) : Except Stop Bool × Session World :=
  let rx := session.client.rxBuffer
  let (res, ctx) := handleMsg tables (HwioPacketHeader.at rx.buffer rx.currPtr) session.request
  let after := session.afterMsg ptr ctx
  match res with
  | .error stop => (.error stop, after)
  | .ok res =>
    let (sentAll, trace) :=
      sendReply sys session.client.fd ptr res.txSize (load ctx.tx 0 res.txSize) after.trace
    let disconnect := res.disconnect || !sentAll
    (.ok disconnect, { after with
      client := { after.client with
        rxBuffer := { after.client.rxBuffer with
          currPtr := rx.currPtr + rx.msgLen
          currLen := rx.currLen - rx.msgLen } }
      trace := trace ++ [.handled ptr disconnect] })

/-- How the loop of `parse_msgs` ends. -/
inductive LoopEnd where
  | waiting
  | disconnect
  | stopped (stop : Stop)
deriving DecidableEq, Repr

/-- The loop of `HwioServer::parse_msgs`.  Every round consumes at least a
header, so the number of buffered bytes bounds the rounds. -/
def parseLoop (tables : Tables World) (sys : Sys) (ptr : ClientPtr) :
    Nat → Session World → LoopEnd × Session World
  | 0, session => (.waiting, session)
  | fuel + 1, session =>
      if session.client.rxBuffer.currLen < sizeofHeader then (.waiting, session)
      else if session.client.rxBuffer.currLen < session.client.rxBuffer.msgLen then
        (.waiting, session)
      else
        match handleFrame tables sys ptr session with
        | (.error stop, session) => (.stopped stop, session)
        | (.ok true, session) => (.disconnect, session)
        | (.ok false, session) => parseLoop tables sys ptr fuel session

end Hwio
