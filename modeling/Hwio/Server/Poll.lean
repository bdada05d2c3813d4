import Hwio.Server.Stream

/-!
Contract: the client tables and the poll loop of `hwio_server.cpp`.

Owns `add_new_client`, `remove_client`, `get_client_cnt`, `parse_msgs`,
`handle_multiple_client_requests` and one pass of `pool_client_msgs`, and the
state that `prepare_server_socket` leaves.

A pass visits the elements of `poll_fds` that were present when it began.
-/

namespace Hwio

open Library

variable {World : Type}

/-- How a call on the server ends, and the state it leaves. -/
abbrev Ran (World : Type) (α : Type) := Except Stop α × HwioServer World

namespace HwioServer

/-! ## Client records -/

/-- The state after `prepare_server_socket`. -/
def prepared (tables : Tables World) (masterSocket : Fd) (txBuffer : List Byte)
    (world : World) : HwioServer World where
  tables := tables
  masterSocket := masterSocket
  txBuffer := txBuffer
  pollFds := [masterSocket]
  removedPollFds := []
  fdToClient := ∅
  clients := []
  heap := fun _ => none
  nextClient := 0
  world := world
  trace := [.opened masterSocket]

def note (event : Event) (server : HwioServer World) : HwioServer World :=
  { server with trace := server.trace ++ [event] }

/-- `new ClientInfo` in the first empty slot of `clients`, or behind the last. -/
def allocClient (sys : Sys) (socket : Fd) (server : HwioServer World) : HwioServer World :=
  let id := server.clients.findIdx (· = none)
  let client := server.nextClient
  { server with
    clients :=
      if id < server.clients.length then server.clients.set id (some client)
      else server.clients ++ [some client]
    heap := Function.update server.heap client
      (some ⟨id, socket, ⟨sys.newBuffer server.trace, 0, 0⟩, []⟩)
    nextClient := client + 1
    trace := server.trace ++ [.created client socket] }

/-- A record is the new one or was there. -/
theorem allocClient_live {sys : Sys} {socket : Fd} {server : HwioServer World}
    {client : ClientPtr} {record : ClientInfo}
    (live : (allocClient sys socket server).heap client = some record) :
    (client = server.nextClient ∧
      record = ⟨server.clients.findIdx (· = none), socket, ⟨sys.newBuffer server.trace, 0, 0⟩, []⟩) ∨
      client ≠ server.nextClient ∧ server.heap client = some record := by
  by_cases same : client = server.nextClient
  · simp only [allocClient, same, Function.update_self, Option.some.injEq] at live
    exact Or.inl ⟨same, live.symm⟩
  · simp only [allocClient, Function.update_of_ne same] at live
    exact Or.inr ⟨same, live⟩

/-- The entry in `fd_to_client` and the element of `poll_fds`. -/
def listClient (socket : Fd) (client : ClientPtr) (server : HwioServer World) :
    HwioServer World :=
  { server with
    fdToClient := server.fdToClient.insert socket client
    pollFds := server.pollFds ++ [socket] }

/-- `HwioServer::add_new_client` -/
def addNewClient (sys : Sys) (socket : Fd) (server : HwioServer World) :
    Ran World ClientPtr :=
  let client := server.nextClient
  let server := allocClient sys socket server
  if server.fdToClient.lookup socket = none then (.ok client, listClient socket client server)
  else (.error (.aborted .addNewClient), server)

/-- `~ClientInfo` closes the descriptor. -/
def closeOnDelete (fd : Fd) : List Event := if 0 ≤ fd then [.closed fd] else []

theorem eq_closed_of_mem {fd : Fd} {event : Event} (member : event ∈ closeOnDelete fd) :
    event = .closed fd := by
  unfold closeOnDelete at member
  split at member
  · exact List.mem_singleton.mp member
  · cases member

theorem mem_deletion {client : ClientPtr} {fd : Fd} {event : Event}
    (member : event ∈ .removed client :: closeOnDelete fd) :
    event = .removed client ∨ event = .closed fd :=
  (List.mem_cons.mp member).imp_right eq_closed_of_mem

/-- The slot, the entry and the record of a client are given up. -/
def deleteClient (client : ClientPtr) (record : ClientInfo) (server : HwioServer World) :
    HwioServer World :=
  { server with
    clients := server.clients.set record.id none
    fdToClient := server.fdToClient.erase record.fd
    heap := Function.update server.heap client none
    trace := server.trace ++ .removed client :: closeOnDelete record.fd }

theorem deleteClient_live {server : HwioServer World} {client other : ClientPtr}
    {record left : ClientInfo}
    (live : (deleteClient client record server).heap other = some left) :
    other ≠ client ∧ server.heap other = some left := by
  by_cases same : other = client
  · simp [deleteClient, same] at live
  · simp only [deleteClient, Function.update_of_ne same] at live
    exact ⟨same, live⟩

/-- `HwioServer::remove_client` -/
def removeClient (socket : Fd) (server : HwioServer World) : Ran World Unit :=
  match server.fdToClient.lookup socket with
  | none => (.ok (), server)
  | some client =>
    match server.heap client with
    | none => (.error .dangling, server)
    | some record =>
      if record.fd = socket then (.ok (), deleteClient client record server)
      else (.error (.aborted .removeClient), server)

/-- `removed_poll_fds.push_back(…)` -/
def pushRemoved (fd : Fd) (server : HwioServer World) : HwioServer World :=
  { server with removedPollFds := server.removedPollFds ++ [fd] }

/-- `HwioServer::get_client_cnt` -/
def getClientCnt (server : HwioServer World) : Except Stop Nat :=
  let count := server.clients.countP (· ≠ none)
  if count = server.fdToClient.entries.length then .ok count
  else .error (.aborted .getClientCnt)

/-! ## The requests of one client -/

def session (server : HwioServer World) (record : ClientInfo) : Session World :=
  ⟨record, server.txBuffer, server.world, server.trace⟩

def putSession (server : HwioServer World) (client : ClientPtr) (session : Session World) :
    HwioServer World :=
  { server with
    heap := Function.update server.heap client (some session.client)
    txBuffer := session.txBuffer
    world := session.world
    trace := session.trace }

theorem putSession_live {server : HwioServer World} {client other : ClientPtr}
    {session : Session World} {left : ClientInfo}
    (live : (server.putSession client session).heap other = some left) :
    (other = client ∧ left = session.client) ∨
      other ≠ client ∧ server.heap other = some left := by
  by_cases same : other = client
  · simp only [putSession, same, Function.update_self, Option.some.injEq] at live
    exact Or.inl ⟨same, live.symm⟩
  · simp only [putSession, Function.update_of_ne same] at live
    exact Or.inr ⟨same, live⟩

/-- `HwioServer::parse_msgs`.  The descriptor queued after a disconnect is read
from the record that `remove_client` has deleted. -/
def parseMsgs (sys : Sys) (client : ClientPtr) (session : Session World)
    (server : HwioServer World) : Ran World Unit :=
  let (ended, session) :=
    parseLoop server.tables sys client session.client.rxBuffer.currLen session
  let server := server.putSession client session
  match ended with
  | .waiting => (.ok (), server)
  | .stopped stop => (.error stop, server)
  | .disconnect =>
    match removeClient session.client.fd server with
    | (.error stop, server) => (.error stop, server)
    | (.ok (), server) =>
      (.ok (), pushRemoved (sys.freedFd server.trace session.client.fd)
        (note (.readFreed client) server))

/-- The record of a descriptor, made when there is none. -/
def clientOf (sys : Sys) (socket : Fd) (server : HwioServer World) : Ran World ClientPtr :=
  match server.fdToClient.lookup socket with
  | none => addNewClient sys socket server
  | some client => (.ok client, server)

/-- `HwioServer::handle_multiple_client_requests` -/
def handleMultipleClientRequests (sys : Sys) (socket : Fd) (server : HwioServer World) :
    Ran World Unit :=
  match clientOf sys socket server with
  | (.error stop, server) => (.error stop, server)
  | (.ok client, server) =>
    match server.heap client with
    | none => (.error .dangling, server)
    | some record =>
      if record.fd = socket then
        match readFromSocket sys client (server.session record) with
        | (true, session) => parseMsgs sys client session (server.putSession client session)
        | (false, session) =>
          match removeClient socket (server.putSession client session) with
          | (.error stop, server) => (.error stop, server)
          | (.ok (), server) => (.ok (), pushRemoved socket server)
      else (.error (.aborted .handleMultipleClientRequests), server)

/-! ## The poll loop -/

def pollErr : UInt16 := 0x008
def pollHup : UInt16 := 0x010
def pollNval : UInt16 := 0x020

/-- One round of `for (auto & fd : poll_fds)`. -/
def visit (sys : Sys) (fd : Fd) (revents : UInt16) (server : HwioServer World) :
    Ran World Unit :=
  if fd < 0 ∨ revents = 0 then (.ok (), server)
  else
    let server := note (.visited fd) server
    if revents &&& pollErr ≠ 0 ∨ revents &&& pollHup ≠ 0 ∨ revents &&& pollNval ≠ 0 then
      if fd = server.masterSocket then
        (.error (.thrown ⟨true, text "Error condition on master socket! fd.revents = " ++
          decimal revents.toNat⟩), server)
      else
        match removeClient fd server with
        | (.error stop, server) => (.error stop, server)
        | (.ok (), server) => (.ok (), pushRemoved fd server)
    else if fd = server.masterSocket then
      match sys.accept server.trace with
      | none => (.error (.thrown ⟨true, text "error in accept for client socket"⟩), server)
      | some socket =>
        match addNewClient sys socket (note (.accepted socket) server) with
        | (.error stop, server) => (.error stop, server)
        | (.ok _, server) => (.ok (), server)
    else handleMultipleClientRequests sys fd server

def visitAll (sys : Sys) : List (Fd × UInt16) → HwioServer World → Ran World Unit
  | [], server => (.ok (), server)
  | (fd, revents) :: rest, server =>
      match visit sys fd revents server with
      | (.error stop, server) => (.error stop, server)
      | (.ok (), server) => visitAll sys rest server

/-- The removal of the queued descriptors at the end of a pass. -/
def cleanup (server : HwioServer World) : HwioServer World :=
  { server with
    pollFds := server.pollFds.filter (· ∉ server.removedPollFds)
    removedPollFds := [] }

/-- `HwioServer::pool_client_msgs` -/
def poolClientMsgs (sys : Sys) (server : HwioServer World) : Ran World Unit :=
  match sys.ppoll server.trace server.pollFds with
  | .timeout => (.ok (), server)
  | .interrupted => (.ok (), server)
  | .failed errno =>
    (.error (.thrown ⟨true, text "Error condition upon execution of ppoll()! errno = " ++
      decimal errno⟩), server)
  | .ready revents =>
    match visitAll sys (server.pollFds.mapIdx fun index fd => (fd, revents index)) server with
    | (.error stop, server) => (.error stop, server)
    | (.ok (), server) => (.ok (), cleanup server)

end HwioServer

end Hwio
